import Carrick.Foundation.BitScan

namespace Carrick
namespace FdCore

open Foundation

/-!
# The free-slot bitmap

The free slots of a descriptor table are marked in levels of 64-bit words: a
bit of the lowest level stands for a slot, and a bit of a higher level for a
word of the level below that is not zero.  The lowest free slot from a given
number on is found by one walk up the levels and down again.

The code keeps the levels one behind the other in a single array of words, with
the offset and the size of each; here they are a list of levels, lowest first.
-/

abbrev Level := List (BitVec 64)

/-- The bit `index` of a level. -/
def bitAt (words : Level) (index : Nat) : Bool :=
  (words.getD (index / 64) 0).getLsbD (index % 64)

/-- The level with the bit `index` set, as `fetch_or` does. -/
def setBit (words : Level) (index : Nat) : Level :=
  words.set (index / 64) (words.getD (index / 64) 0 ||| BitVec.twoPow 64 (index % 64))

/-- The level with a bit for each flag that is true. -/
def packLevel (flags : List Bool) : Level :=
  flags.zipIdx.foldl (fun words flag => if flag.1 then setBit words flag.2 else words)
    (List.replicate ((flags.length + 63) / 64) 0)

/-- Which words of a level are not zero. -/
def occupied (words : Level) : List Bool :=
  words.map (fun word => word ≠ 0)

/-- `rebuild`: the levels over the flags, up to the first that has one word. -/
def rebuildLevels : Nat -> List Bool -> List Level
  | 0, _ => []
  | fuel + 1, flags =>
    if flags = [] then []
    else if (packLevel flags).length = 1 then [packLevel flags]
    else packLevel flags :: rebuildLevels fuel (occupied (packLevel flags))

/-- Mark one bit, and in each level above the word it lies in. -/
def markFree : List Level -> Nat -> Bool -> List Level
  | [], _, _ => []
  | words :: upper, bit, free =>
    let mask := BitVec.twoPow 64 (bit % 64)
    let value :=
      if free then words.getD (bit / 64) 0 ||| mask else words.getD (bit / 64) 0 &&& ~~~mask
    words.set (bit / 64) value :: markFree upper (bit / 64) (value ≠ 0)

/-- The lowest set bit from `low` on: in its own word, or else in the first word
that the level above knows to be occupied. -/
def nextBit : List Level -> Nat -> Option Nat
  | [], _ => none
  | words :: upper, low =>
    if words.length <= low / 64 then none
    else
      let bits := words.getD (low / 64) 0 &&& (BitVec.allOnes 64 <<< (low % 64))
      if bits ≠ 0 then some (low / 64 * 64 + bits.ctz.toNat)
      else
        match nextBit upper (low / 64 + 1) with
        | none => none
        | some next => some (next * 64 + (words.getD next 0).ctz.toNat)

/-! ## What the levels mean -/

/-- The lowest level has the flags as its bits, and each level above says which
words of the level below are occupied; nothing is above a single word. -/
def Summarises : List Bool -> List Level -> Prop
  | flags, [] => flags.length <= 1
  | flags, words :: upper =>
    words.length = (flags.length + 63) / 64 ∧
      (∀ index, bitAt words index = flags.getD index false) ∧
      Summarises (occupied words) upper

theorem getD_set {items : List Bool} {index : Nat} {value : Bool} (inside : index < items.length)
    (other : Nat) :
    (items.set index value).getD other false = if other = index then value
      else items.getD other false := by
  rw [List.getD_eq_getElem?_getD, List.getElem?_set, List.getD_eq_getElem?_getD]
  by_cases same : index = other
  · rw [if_pos same, if_pos same.symm, if_pos inside, Option.getD_some]
  · rw [if_neg same, if_neg (Ne.symm same)]

theorem bitAt_set {words : Level} {word : Nat} (inside : word < words.length) (value : BitVec 64)
    (index : Nat) :
    bitAt (words.set word value) index =
      if index / 64 = word then value.getLsbD (index % 64) else bitAt words index := by
  unfold bitAt
  rw [List.getD_eq_getElem?_getD, List.getElem?_set]
  by_cases same : word = index / 64
  · rw [if_pos same, if_pos same.symm, if_pos inside, Option.getD_some]
  · rw [if_neg same, if_neg (Ne.symm same), List.getD_eq_getElem?_getD]

theorem bitAt_setBit {words : Level} {bit : Nat} (inside : bit / 64 < words.length) (index : Nat) :
    bitAt (setBit words bit) index = (decide (index = bit) || bitAt words index) := by
  unfold setBit
  rw [bitAt_set inside]
  by_cases sameWord : index / 64 = bit / 64
  · rw [if_pos sameWord, BitVec.getLsbD_or, BitVec.getLsbD_twoPow]
    unfold bitAt
    rw [sameWord]
    by_cases sameBit : index = bit
    · subst sameBit
      simp [Nat.mod_lt]
    · have different : ¬ bit % 64 = index % 64 := by omega
      simp [sameBit, different]
  · rw [if_neg sameWord]
    have different : ¬ index = bit := by
      rintro rfl
      exact sameWord rfl
    simp [different]

theorem length_setBit (words : Level) (bit : Nat) : (setBit words bit).length = words.length :=
  List.length_set

theorem packFlags_spec (flags : List Bool) :
    ∀ (start : Nat) (words : Level), start + flags.length <= 64 * words.length ->
      ((flags.zipIdx start).foldl
          (fun words flag => if flag.1 then setBit words flag.2 else words) words).length =
        words.length ∧
      ∀ index,
        bitAt ((flags.zipIdx start).foldl
          (fun words flag => if flag.1 then setBit words flag.2 else words) words) index =
          (bitAt words index || (decide (start <= index) && flags.getD (index - start) false)) := by
  induction flags with
  | nil =>
    intro start words _
    refine ⟨rfl, ?_⟩
    intro index
    simp
  | cons flag rest ih =>
    intro start words room
    rw [List.length_cons] at room
    rw [List.zipIdx_cons, List.foldl_cons]
    have inside : start / 64 < words.length := by omega
    have sameLength : (if flag then setBit words start else words).length = words.length := by
      cases flag with
      | false => rfl
      | true => exact length_setBit words start
    have later := ih (start + 1) (if flag then setBit words start else words)
      (by omega)
    refine ⟨later.1.trans sameLength, ?_⟩
    intro index
    rw [later.2]
    have first : bitAt (if flag then setBit words start else words) index =
        (bitAt words index || (decide (index = start) && flag)) := by
      cases flag with
      | false => simp
      | true =>
        rw [if_pos rfl, bitAt_setBit inside]
        simp [Bool.or_comm]
    rw [first]
    rcases Nat.lt_trichotomy index start with below | same | above
    · have notLater : ¬ start + 1 <= index := by omega
      have notFrom : ¬ start <= index := by omega
      have different : ¬ index = start := by omega
      simp [notLater, notFrom, different]
    · subst same
      have notLater : ¬ index + 1 <= index := by omega
      simp [notLater]
    have shift : index - start = index - (start + 1) + 1 := by omega
    have isLater : start + 1 <= index := by omega
    have isFrom : start <= index := by omega
    have different : ¬ index = start := by omega
    simp [shift, isLater, isFrom, different]

theorem length_packLevel (flags : List Bool) :
    (packLevel flags).length = (flags.length + 63) / 64 := by
  unfold packLevel
  rw [(packFlags_spec flags 0 _ (by rw [List.length_replicate]; omega)).1, List.length_replicate]

theorem bitAt_packLevel (flags : List Bool) (index : Nat) :
    bitAt (packLevel flags) index = flags.getD index false := by
  unfold packLevel
  rw [(packFlags_spec flags 0 _ (by rw [List.length_replicate]; omega)).2]
  have empty : bitAt (List.replicate ((flags.length + 63) / 64) 0) index = false := by
    unfold bitAt
    rw [List.getD_eq_getElem?_getD, List.getElem?_replicate]
    split_ifs <;> simp
  rw [empty]
  simp

theorem length_occupied (words : Level) : (occupied words).length = words.length :=
  List.length_map _

theorem rebuildLevels_summarises :
    ∀ (fuel : Nat) (flags : List Bool), flags.length <= fuel ->
      Summarises flags (rebuildLevels fuel flags) := by
  intro fuel
  induction fuel with
  | zero =>
    intro flags short
    show flags.length <= 1
    omega
  | succ fuel ih =>
    intro flags short
    unfold rebuildLevels
    split_ifs with empty single
    · subst empty
      show 0 <= 1
      omega
    · refine ⟨length_packLevel flags, bitAt_packLevel flags, ?_⟩
      show (occupied (packLevel flags)).length <= 1
      rw [length_occupied]
      omega
    refine ⟨length_packLevel flags, bitAt_packLevel flags, ?_⟩
    refine ih _ ?_
    rw [length_packLevel] at single
    rw [length_occupied, length_packLevel]
    omega

/-! ## Marking a bit -/

theorem bitAt_mark {words : Level} {bit : Nat} (inside : bit / 64 < words.length) (free : Bool)
    (index : Nat) :
    bitAt (words.set (bit / 64)
      (if free then words.getD (bit / 64) 0 ||| BitVec.twoPow 64 (bit % 64)
        else words.getD (bit / 64) 0 &&& ~~~BitVec.twoPow 64 (bit % 64))) index =
      if index = bit then free else bitAt words index := by
  rw [bitAt_set inside]
  by_cases sameWord : index / 64 = bit / 64
  · rw [if_pos sameWord]
    have within : index % 64 < 64 := Nat.mod_lt _ (by omega)
    unfold bitAt
    rw [sameWord]
    by_cases sameBit : index = bit
    · subst sameBit
      cases free <;> simp [within]
    · have different : ¬ index % 64 = bit % 64 := by omega
      cases free <;> simp [sameBit, within, different]
  · rw [if_neg sameWord, if_neg (by rintro rfl; exact sameWord rfl)]

theorem markFree_summarises :
    ∀ (levels : List Level) (flags : List Bool) (bit : Nat) (free : Bool),
      Summarises flags levels -> bit < flags.length ->
        Summarises (flags.set bit free) (markFree levels bit free) := by
  intro levels
  induction levels with
  | nil =>
    intro flags bit free summary _
    show (flags.set bit free).length <= 1
    rw [List.length_set]
    exact summary
  | cons words upper ih =>
    intro flags bit free summary inside
    rcases summary with ⟨size, bits, above⟩
    have wordInside : bit / 64 < words.length := by omega
    refine ⟨?_, ?_, ?_⟩
    · rw [List.length_set, List.length_set]
      exact size
    · intro index
      rw [bitAt_mark wordInside, getD_set inside, bits]
    · unfold occupied
      rw [List.map_set]
      exact ih (occupied words) (bit / 64) _ above
        (by rw [length_occupied]; exact wordInside)

/-! ## Searching -/

/-- `found` is the first flag from `low` on that is true. -/
def Lowest (flags : List Bool) (low : Nat) : Option Nat -> Prop
  | none => ∀ index, low <= index -> flags.getD index false = false
  | some found => low <= found ∧ flags.getD found false = true ∧
      ∀ index, low <= index -> index < found -> flags.getD index false = false

theorem getD_beyond {flags : List Bool} {index : Nat} (beyond : flags.length <= index) :
    flags.getD index false = false := by
  rw [List.getD_eq_getElem?_getD, List.getElem?_eq_none beyond, Option.getD_none]

theorem getD_occupied (words : Level) (word : Nat) :
    (occupied words).getD word false = decide (words.getD word 0 ≠ 0) := by
  unfold occupied
  rw [List.getD_eq_getElem?_getD, List.getElem?_map, List.getD_eq_getElem?_getD]
  cases words[word]? with
  | none => simp
  | some value => simp

theorem getLsbD_from (word : BitVec 64) (low index : Nat) (within : index < 64) :
    (word &&& (BitVec.allOnes 64 <<< low)).getLsbD index =
      (word.getLsbD index && decide (low <= index)) := by
  rw [BitVec.getLsbD_and, BitVec.getLsbD_shiftLeft, BitVec.getLsbD_allOnes]
  by_cases above : low <= index
  · have short : index - low < 64 := by omega
    simp [within, above, short]
  · simp [within, above, Nat.lt_of_not_le above]

theorem lowest_in_word {word : BitVec 64} (nonzero : word ≠ 0) :
    word.ctz.toNat < 64 ∧ word.getLsbD word.ctz.toNat = true ∧
      ∀ bit, bit < word.ctz.toNat -> word.getLsbD bit = false :=
  ⟨ctz_toNat_lt nonzero, BitVec.getLsbD_true_ctz_of_ne_zero nonzero,
    fun _ below => BitVec.getLsbD_false_of_lt_ctz below⟩

theorem bitAt_word (words : Level) (word : Nat) {bit : Nat} (within : bit < 64) :
    bitAt words (word * 64 + bit) = (words.getD word 0).getLsbD bit := by
  unfold bitAt
  rw [show (word * 64 + bit) / 64 = word by omega, show (word * 64 + bit) % 64 = bit by omega]

theorem getLsbD_masked (words : Level) (low bit : Nat) (within : bit < 64) :
    (words.getD (low / 64) 0 &&& (BitVec.allOnes 64 <<< (low % 64))).getLsbD bit =
      (bitAt words (low / 64 * 64 + bit) && decide (low <= low / 64 * 64 + bit)) := by
  rw [getLsbD_from _ _ _ within, bitAt_word words _ within]
  congr 1
  exact decide_eq_decide.mpr (by omega)

/-- The walk finds the lowest flag.  Above the last level there is at most one
flag, which a walk that comes from below has already seen. -/
theorem nextBit_lowest :
    ∀ (levels : List Level) (flags : List Bool) (low : Nat), Summarises flags levels ->
      (levels = [] -> flags.length <= low) -> Lowest flags low (nextBit levels low) := by
  intro levels
  induction levels with
  | nil =>
    intro flags low _ seen index above
    exact getD_beyond (Nat.le_trans (seen rfl) above)
  | cons words upper ih =>
    intro flags low summary _
    rcases summary with ⟨size, bits, above⟩
    unfold nextBit
    by_cases beyond : words.length <= low / 64
    · rw [if_pos beyond]
      intro index later
      refine getD_beyond ?_
      omega
    rw [if_neg beyond]
    simp only
    have masked := getLsbD_masked words low
    generalize words.getD (low / 64) 0 &&& (BitVec.allOnes 64 <<< (low % 64)) = word at masked
    have decomposed : ∀ index, low <= index -> index < (low / 64 + 1) * 64 ->
        bitAt words index = word.getLsbD (index - low / 64 * 64) := by
      intro index lower inWord
      rw [masked (index - low / 64 * 64) (by omega)]
      have same : low / 64 * 64 + (index - low / 64 * 64) = index := by omega
      rw [same]
      simp [lower]
    by_cases found : word ≠ 0
    · rw [if_pos found]
      rcases lowest_in_word found with ⟨within, set, below⟩
      have both := masked _ within
      rw [set] at both
      have parts := Bool.and_eq_true_iff.mp both.symm
      have far : low <= low / 64 * 64 + word.ctz.toNat := of_decide_eq_true parts.2
      refine ⟨far, by rw [<- bits]; exact parts.1, ?_⟩
      intro index lower before
      rw [<- bits, decomposed index lower (by omega)]
      exact below _ (by omega)
    rw [if_neg found]
    have wordEmpty : word = 0 := not_not.mp found
    have nothing : ∀ index, low <= index -> index < (low / 64 + 1) * 64 ->
        flags.getD index false = false := by
      intro index lower inWord
      rw [<- bits, decomposed index lower inWord, wordEmpty]
      simp
    have emptyWord : ∀ index, (occupied words).getD (index / 64) false = false ->
        flags.getD index false = false := by
      intro index isEmpty
      rw [getD_occupied, decide_eq_false_iff_not, not_not] at isEmpty
      rw [<- bits]
      unfold bitAt
      rw [isEmpty]
      simp
    have later := ih (occupied words) (low / 64 + 1) above (by
      intro top
      subst top
      have single : (occupied words).length <= 1 := above
      omega)
    cases search : nextBit upper (low / 64 + 1) with
    | none =>
      rw [search] at later
      intro index lower
      by_cases inWord : index < (low / 64 + 1) * 64
      · exact nothing index lower inWord
      · exact emptyWord index (later (index / 64) (by omega))
    | some next =>
      rw [search] at later
      rcases later with ⟨nextLater, nextOccupied, between⟩
      rw [getD_occupied, decide_eq_true_eq] at nextOccupied
      rcases lowest_in_word nextOccupied with ⟨within, set, below⟩
      refine ⟨by omega, ?_, ?_⟩
      · rw [<- bits, bitAt_word words next within]
        exact set
      intro index lower before
      by_cases inWord : index < (low / 64 + 1) * 64
      · exact nothing index lower inWord
      by_cases earlier : index / 64 < next
      · exact emptyWord index (between (index / 64) (by omega) earlier)
      · have sameWord : index = next * 64 + (index - next * 64) := by omega
        rw [<- bits, sameWord, bitAt_word words next (by omega)]
        exact below _ (by omega)

end FdCore
end Carrick
