import Carrick.Foundation.Run
import Carrick.Vfs.ChunkBytes

namespace Carrick
namespace Vfs

open Foundation

/-!
# The dense file that a sparse buffer stands for

The abstract file is an array of bytes.  `Represents` relates a buffer to the
array it stands for; every operation of the buffer is simulated by the same
operation of the array, so the relation holds along every history.
-/

/-! ## The abstract file -/

namespace Dense

/-- The file padded with zeros to at least `length` bytes. -/
def grow (file : List UInt8) (length : Nat) : List UInt8 :=
  file ++ List.replicate (length - file.length) 0

def writeRange (file : List UInt8) (offset : Nat) (bytes : List UInt8) :
    List UInt8 × Except SparseBufferError Unit :=
  if bytes = [] then (file, .ok ())
  else if offset + bytes.length < wordLimit then
    (overwrite (grow file (offset + bytes.length)) offset bytes, .ok ())
  else (file, .error .overflow)

def extendFromSlice (file bytes : List UInt8) : List UInt8 × Except SparseBufferError Unit :=
  if file.length + bytes.length < wordLimit then (file ++ bytes, .ok ())
  else (file, .error .overflow)

def setLen (file : List UInt8) (newLen : Nat) : List UInt8 :=
  grow (file.take newLen) newLen

def truncate (file : List UInt8) (newLen : Nat) : List UInt8 :=
  file.take newLen

def punchHole (file : List UInt8) (offset length : Nat) : List UInt8 :=
  file.mapIdx (fun i b => if offset <= i ∧ i < offset + length then 0 else b)

theorem getElem?_grow {file : List UInt8} {length i : Nat} {b : UInt8}
    (found : (grow file length)[i]? = some b) :
    file[i]? = some b ∨ (file.length <= i ∧ b = 0) := by
  unfold grow at found
  by_cases inside : i < file.length
  · rw [List.getElem?_append_left inside] at found
    exact .inl found
  · rw [List.getElem?_append_right (by omega), List.getElem?_replicate] at found
    split_ifs at found with padded
    exact .inr ⟨by omega, (Option.some.inj found).symm⟩

theorem length_grow (file : List UInt8) (length : Nat) :
    (grow file length).length = max file.length length := by
  unfold grow
  rw [List.length_append, List.length_replicate]
  omega

end Dense

/-! ## The relation -/

structure Represents (buffer : SparseBuffer) (file : List UInt8) : Prop where
  length : buffer.len = file.length
  word : buffer.len < wordLimit
  laid : Laid buffer.len buffer.chunks
  reads : ∀ i b, file[i]? = some b -> Reads buffer.chunks i b

theorem Reads.congr {chunks after : Chunks} {i : Nat} {b : UInt8} (reads : Reads chunks i b)
    (same : ∀ c, Holds after i c <-> Holds chunks i c) : Reads after i b := by
  rcases reads with held | ⟨zero, empty⟩
  · exact .inl ((same b).mpr held)
  · exact .inr ⟨zero, fun c held => empty c ((same c).mp held)⟩

namespace Represents

variable {buffer : SparseBuffer} {file : List UInt8}

theorem reads_beyond (rep : Represents buffer file) {i : Nat} (beyond : file.length <= i) :
    Reads buffer.chunks i 0 := by
  refine .inr ⟨rfl, ?_⟩
  intro c held
  have inside := rep.laid.holds_lt held
  rw [rep.length] at inside
  omega

theorem reads_grow (rep : Represents buffer file) {length i : Nat} {b : UInt8}
    (found : (Dense.grow file length)[i]? = some b) : Reads buffer.chunks i b := by
  rcases Dense.getElem?_grow found with there | ⟨beyond, zero⟩
  · exact rep.reads i b there
  · rw [zero]
    exact rep.reads_beyond beyond

theorem empty : Represents { len := 0, chunks := [] } [] :=
  ⟨rfl, wordLimit_pos, Laid.nil 0, by simp⟩

theorem fromVec {data : List UInt8} (short : data.length < wordLimit) :
    Represents (SparseBuffer.fromVec data) data := by
  have placed := placeChunks_spec data 0 [] (Laid.nil data.length) (by simp) (by simp)
  refine ⟨rfl, short, placed.1, ?_⟩
  intro i b found
  refine .inl ((placed.2 i b).mpr (.inr ⟨by omega, ?_⟩))
  rw [Nat.zero_mul, Nat.sub_zero]
  exact found

theorem setLen (rep : Represents buffer file) (newLen : Nat) (short : newLen < wordLimit) :
    Represents (buffer.setLen newLen) (Dense.setLen file newLen) := by
  have pruned := pruneChunks_spec newLen rep.laid
  refine ⟨?_, short, pruned.1, ?_⟩
  · unfold SparseBuffer.setLen Dense.setLen
    simp only [Dense.length_grow, List.length_take]
    omega
  intro i b found
  have inside := lt_length_of_getElem? found
  unfold Dense.setLen at found inside
  rw [Dense.length_grow, List.length_take] at inside
  have older : Reads buffer.chunks i b := by
    rcases Dense.getElem?_grow found with there | ⟨beyond, zero⟩
    · rw [List.getElem?_take] at there
      split_ifs at there
      exact rep.reads i b there
    · rw [List.length_take] at beyond
      rw [zero]
      exact rep.reads_beyond (by omega)
  refine older.congr ?_
  intro c
  exact (pruned.2 i c).trans (and_iff_left (by omega))

theorem truncate (rep : Represents buffer file) (newLen : Nat) :
    Represents (buffer.truncate newLen) (Dense.truncate file newLen) := by
  unfold SparseBuffer.truncate Dense.truncate
  have length := rep.length
  have word := rep.word
  split_ifs with shorter
  · have shrunk := rep.setLen newLen (by omega)
    unfold Dense.setLen Dense.grow at shrunk
    rw [List.length_take, Nat.min_eq_left (by omega), Nat.sub_self, List.replicate_zero,
      List.append_nil] at shrunk
    exact shrunk
  · rw [List.take_of_length_le (by omega)]
    exact rep

theorem writeRange (rep : Represents buffer file) (offset : Nat) (bytes : List UInt8) :
    Represents (buffer.writeRange offset bytes).1 (Dense.writeRange file offset bytes).1 ∧
      (buffer.writeRange offset bytes).2 = (Dense.writeRange file offset bytes).2 := by
  unfold SparseBuffer.writeRange Dense.writeRange
  by_cases empty : bytes = []
  · rw [if_pos empty, if_pos empty]
    exact ⟨rep, rfl⟩
  rw [if_neg empty, if_neg empty]
  by_cases fits : offset + bytes.length < wordLimit
  · rw [if_pos fits, checkedAdd_of_lt fits]
    refine ⟨?_, rfl⟩
    simp only
    have length := rep.length
    have word := rep.word
    have larger : (if buffer.len < offset + bytes.length then offset + bytes.length
        else buffer.len) = max buffer.len (offset + bytes.length) := by
      split_ifs <;> omega
    have written := writeChunks_spec (show max buffer.len (offset + bytes.length) < wordLimit
      by omega) bytes offset buffer.chunks (rep.laid.mono (by omega)) (by omega)
    have grown := Dense.length_grow file (offset + bytes.length)
    have room : offset + bytes.length <= (Dense.grow file (offset + bytes.length)).length := by
      omega
    rw [larger]
    refine ⟨?_, ?_, written.1, ?_⟩
    · simp only [length_overwrite room, grown]
      omega
    · simp only
      omega
    intro i b found
    by_cases inside : offset <= i ∧ i < offset + bytes.length
    · rw [getElem?_overwrite_inside room inside.1 inside.2] at found
      exact .inl ((written.2 i b).mpr (.inr ⟨inside.1, found⟩))
    rw [getElem?_overwrite_outside room (by omega)] at found
    refine (rep.reads_grow found).congr ?_
    intro c
    rw [written.2 i c]
    constructor
    · rintro (⟨held, _⟩ | ⟨lower, there⟩)
      · exact held
      · have upper := lt_length_of_getElem? there
        omega
    · intro held
      exact .inl ⟨held, inside⟩
  · have overflows : checkedAdd offset bytes.length = none := if_neg fits
    rw [if_neg fits, overflows]
    exact ⟨rep, rfl⟩

theorem extendFromSlice (rep : Represents buffer file) (bytes : List UInt8) :
    Represents (buffer.extendFromSlice bytes).1 (Dense.extendFromSlice file bytes).1 ∧
      (buffer.extendFromSlice bytes).2 = (Dense.extendFromSlice file bytes).2 := by
  have appended : Dense.writeRange file file.length bytes = Dense.extendFromSlice file bytes := by
    have short : file.length < wordLimit := by
      rw [<- rep.length]
      exact rep.word
    unfold Dense.writeRange Dense.extendFromSlice
    by_cases empty : bytes = []
    · subst empty
      rw [if_pos rfl, if_pos (by simpa using short), List.append_nil]
    · rw [if_neg empty]
      unfold overwrite Dense.grow
      simp
  have written := rep.writeRange file.length bytes
  rw [appended] at written
  unfold SparseBuffer.extendFromSlice
  rw [rep.length]
  exact written

theorem punchHole (rep : Represents buffer file) (offset length : Nat) :
    Represents (buffer.punchHole offset length) (Dense.punchHole file offset length) := by
  have lengths := rep.length
  have word := rep.word
  unfold SparseBuffer.punchHole
  split_ifs with nothing
  · have unchanged : Dense.punchHole file offset length = file := by
      unfold Dense.punchHole
      refine List.ext_getElem? ?_
      intro i
      rw [List.getElem?_mapIdx]
      cases found : file[i]? with
      | none => rfl
      | some b =>
        have inside := lt_length_of_getElem? found
        rw [Option.map_some, if_neg (by omega)]
    rw [unchanged]
    exact rep
  have stops : min (saturatingAdd offset length) buffer.len = min (offset + length) buffer.len := by
    unfold saturatingAdd
    omega
  have before : offset < min (offset + length) buffer.len := by omega
  rw [stops]
  refine ⟨?_, word, (mem_clearRange rep.laid word before).1, ?_⟩
  · unfold Dense.punchHole
    rw [List.length_mapIdx]
    exact lengths
  intro i b found
  unfold Dense.punchHole at found
  rw [List.getElem?_mapIdx, Option.map_eq_some_iff] at found
  rcases found with ⟨older, there, same⟩
  have inside := lt_length_of_getElem? there
  by_cases punched : offset <= i ∧ i < offset + length
  · rw [if_pos punched] at same
    refine .inr ⟨same.symm, ?_⟩
    intro c held
    exact ((holds_clearRange rep.laid word before).mp held).2 (by omega)
  rw [if_neg punched] at same
  rw [same] at there
  refine (rep.reads i b there).congr ?_
  intro c
  exact (holds_clearRange rep.laid word before).trans (and_iff_left (by omega))

end Represents

/-! ## Histories -/

/-- The operations that change a buffer. -/
inductive Edit where
  | writeRange (offset : Nat) (bytes : List UInt8)
  | extendFromSlice (bytes : List UInt8)
  | setLen (newLen : Nat)
  | truncate (newLen : Nat)
  | punchHole (offset length : Nat)
  | clear
  deriving DecidableEq, Repr

def Edit.InRange : Edit -> Prop
  | .setLen newLen => newLen < wordLimit
  | _ => True

def SparseBuffer.apply (buffer : SparseBuffer) : Edit -> SparseBuffer
  | .writeRange offset bytes => (buffer.writeRange offset bytes).1
  | .extendFromSlice bytes => (buffer.extendFromSlice bytes).1
  | .setLen newLen => buffer.setLen newLen
  | .truncate newLen => buffer.truncate newLen
  | .punchHole offset length => buffer.punchHole offset length
  | .clear => buffer.clear

def Dense.apply (file : List UInt8) : Edit -> List UInt8
  | .writeRange offset bytes => (Dense.writeRange file offset bytes).1
  | .extendFromSlice bytes => (Dense.extendFromSlice file bytes).1
  | .setLen newLen => Dense.setLen file newLen
  | .truncate newLen => Dense.truncate file newLen
  | .punchHole offset length => Dense.punchHole file offset length
  | .clear => []

inductive Origin where
  | new
  | fromVec (data : List UInt8)
  deriving DecidableEq, Repr

def Origin.InRange : Origin -> Prop
  | .new => True
  | .fromVec data => data.length < wordLimit

def Origin.buffer : Origin -> SparseBuffer
  | .new => SparseBuffer.new
  | .fromVec data => SparseBuffer.fromVec data

def Origin.file : Origin -> List UInt8
  | .new => []
  | .fromVec data => data

theorem Represents.apply {buffer : SparseBuffer} {file : List UInt8} (rep : Represents buffer file)
    {edit : Edit} (inRange : edit.InRange) : Represents (buffer.apply edit) (Dense.apply file edit) := by
  cases edit with
  | writeRange offset bytes => exact (rep.writeRange offset bytes).1
  | extendFromSlice bytes => exact (rep.extendFromSlice bytes).1
  | setLen newLen => exact rep.setLen newLen inRange
  | truncate newLen => exact rep.truncate newLen
  | punchHole offset length => exact rep.punchHole offset length
  | clear => exact Represents.empty

theorem replay_represents {origin : Origin} (originInRange : origin.InRange) {history : List Edit}
    (inRange : ∀ edit ∈ history, edit.InRange) :
    Represents (replay SparseBuffer.apply origin.buffer history)
      (replay Dense.apply origin.file history) := by
  induction history with
  | nil =>
    cases origin with
    | new => exact Represents.empty
    | fromVec data => exact Represents.fromVec originInRange
  | cons edit earlier ih =>
    exact (ih (fun older listed => inRange older (by simp [listed]))).apply
      (inRange edit (by simp))

end Vfs
end Carrick
