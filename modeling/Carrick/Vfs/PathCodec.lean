import Mathlib.Data.List.Basic
import Mathlib.Tactic.Common

namespace Carrick
namespace Vfs

/-!
# The reversible codec for undecodable paths

A guest path is any byte string; the layer above carries it as a string of
scalars.  Bytes that are not part of valid UTF-8 are carried as private-use
scalars, and a genuine scalar of that window is carried as the escapes of its
own bytes.
-/

/-- The first scalar of the escape window. -/
def puaBase : Nat := 0xEE00

/-- The last scalar of the escape window. -/
def puaEnd : Nat := puaBase + 0xFF

/-- A scalar that stands for a raw byte. -/
def isEscapeScalar (c : Char) : Bool :=
  puaBase <= c.toNat && c.toNat <= puaEnd

/-- The scalar at the head of a byte string, when the head is valid UTF-8. -/
def headChar (bytes : List UInt8) : Option Char :=
  bytes.toByteArray.utf8DecodeChar? 0

variable {bytes : List UInt8}

theorem headChar_eq_some {c : Char} :
    headChar bytes = some c <-> ∃ rest, bytes = String.utf8EncodeChar c ++ rest := by
  constructor
  · intro valid
    rcases ByteArray.exists_of_utf8DecodeChar?_eq_some valid with ⟨rest, split⟩
    refine ⟨rest.data.toList, ?_⟩
    have same := congrArg (fun array : ByteArray => array.data.toList) split
    simpa using same
  · rintro ⟨rest, rfl⟩
    rw [headChar, List.toByteArray_append]
    exact ByteArray.utf8DecodeChar?_utf8EncodeChar_append

theorem headChar_shrinks {c : Char} (valid : headChar bytes = some c) :
    bytes.length - c.utf8Size < bytes.length := by
  rcases headChar_eq_some.mp valid with ⟨rest, rfl⟩
  have positive := c.utf8Size_pos
  simp only [List.length_append, String.length_utf8EncodeChar]
  omega

/-- Reads the longest valid prefix: its scalars and the bytes after it.  The
whole input is valid when no bytes are left. -/
def fromUtf8 (bytes : List UInt8) : List Char × List UInt8 :=
  match valid : headChar bytes with
  | none => ([], bytes)
  | some c =>
    have := headChar_shrinks valid
    let later := fromUtf8 (bytes.drop c.utf8Size)
    (c :: later.1, later.2)
termination_by bytes.length

theorem drop_encoded (c : Char) (rest : List UInt8) :
    (String.utf8EncodeChar c ++ rest).drop c.utf8Size = rest := by
  rw [<- String.length_utf8EncodeChar, List.drop_left]

theorem fromUtf8_none (invalid : headChar bytes = none) :
    fromUtf8 bytes = ([], bytes) := by
  rw [fromUtf8]
  split
  case h_1 => rfl
  case h_2 valid =>
    rw [invalid] at valid
    cases valid

theorem fromUtf8_append (c : Char) (rest : List UInt8) :
    fromUtf8 (String.utf8EncodeChar c ++ rest) =
      (c :: (fromUtf8 rest).1, (fromUtf8 rest).2) := by
  have valid : headChar (String.utf8EncodeChar c ++ rest) = some c :=
    headChar_eq_some.mpr ⟨rest, rfl⟩
  rw [fromUtf8]
  split
  case h_1 invalid =>
    rw [valid] at invalid
    cases invalid
  case h_2 other found =>
    rw [valid] at found
    cases found
    rw [drop_encoded]

theorem fromUtf8_length (bytes : List UInt8) : (fromUtf8 bytes).2.length <= bytes.length := by
  induction bytes using fromUtf8.induct with
  | case1 bytes invalid => exact Nat.le_of_eq (by rw [fromUtf8_none invalid])
  | case2 bytes c valid smaller ih =>
    rcases headChar_eq_some.mp valid with ⟨rest, rfl⟩
    rw [drop_encoded] at ih
    rw [fromUtf8_append]
    simp only [List.length_append]
    omega

def escapeByte (byte : UInt8) : Char :=
  if (puaBase + byte.toNat).isValidChar then Char.ofNat (puaBase + byte.toNat) else '\uFFFD'

/-- What a scalar of the path is carried as. -/
def charEscapingWindow (c : Char) : List Char :=
  if isEscapeScalar c then (String.utf8EncodeChar c).map escapeByte else [c]

/-- The loop over a path: each valid stretch, then one undecodable byte. -/
def encodeLoop (bytes : List UInt8) : List Char :=
  if bytes = [] then []
  else
    match taken : fromUtf8 bytes with
    | (chars, []) => chars.flatMap charEscapingWindow
    | (chars, byte :: rest) =>
      have : rest.length < bytes.length := by
        have bound := fromUtf8_length bytes
        rw [taken] at bound
        simp only [List.length_cons] at bound
        omega
      chars.flatMap charEscapingWindow ++ escapeByte byte :: encodeLoop rest
termination_by bytes.length

/-- Carries a path as a string.  ASCII is copied. -/
def encodeBytes (bytes : List UInt8) : String :=
  if bytes.all (fun byte => byte.toNat < 128) then
    String.ofList (bytes.map (fun byte => Char.ofNat byte.toNat))
  else String.ofList (encodeLoop bytes)

/-- What one scalar is read back as. -/
def bytesOfChar (c : Char) : List UInt8 :=
  if puaBase <= c.toNat ∧ c.toNat <= puaEnd then [UInt8.ofNat (c.toNat - puaBase)]
  else String.utf8EncodeChar c

def decodeToBytes (s : String) : List UInt8 :=
  s.toList.flatMap bytesOfChar

theorem encodeLoop_eq (bytes : List UInt8) :
    encodeLoop bytes = (fromUtf8 bytes).1.flatMap charEscapingWindow ++
      match (fromUtf8 bytes).2 with
      | [] => []
      | byte :: rest => escapeByte byte :: encodeLoop rest := by
  rw [encodeLoop]
  split
  case isTrue empty =>
    subst empty
    rw [fromUtf8_none (by rfl)]
    rfl
  case isFalse =>
    split
    case h_1 taken => simp [taken]
    case h_2 taken => simp [taken]

theorem encodeLoop_valid (c : Char) (rest : List UInt8) :
    encodeLoop (String.utf8EncodeChar c ++ rest) = charEscapingWindow c ++ encodeLoop rest := by
  rw [encodeLoop_eq, fromUtf8_append, encodeLoop_eq rest, List.flatMap_cons, List.append_assoc]

theorem encodeLoop_invalid {byte : UInt8} {rest : List UInt8}
    (invalid : headChar (byte :: rest) = none) :
    encodeLoop (byte :: rest) = escapeByte byte :: encodeLoop rest := by
  rw [encodeLoop_eq, fromUtf8_none invalid]
  rfl

theorem encodeLoop_nil : encodeLoop [] = [] := by
  rw [encodeLoop, if_pos rfl]

/-- The induction rule of the codec: a path is empty, starts with a valid
scalar, or starts with an undecodable byte. -/
theorem path_induction {motive : List UInt8 -> Prop} (empty : motive [])
    (valid : ∀ c rest, motive rest -> motive (String.utf8EncodeChar c ++ rest))
    (invalid : ∀ byte rest, headChar (byte :: rest) = none -> motive rest ->
      motive (byte :: rest)) (bytes : List UInt8) : motive bytes := by
  induction size : bytes.length using Nat.strongRecOn generalizing bytes with
  | _ count ih =>
    cases bytes with
    | nil => exact empty
    | cons byte rest =>
      cases head : headChar (byte :: rest) with
      | none =>
        refine invalid byte rest head (ih _ ?_ rest rfl)
        simp only [List.length_cons] at size
        omega
      | some c =>
        rcases headChar_eq_some.mp head with ⟨later, split⟩
        rw [split] at size ⊢
        refine valid c later (ih _ ?_ later rfl)
        have positive := c.utf8Size_pos
        simp only [List.length_append, String.length_utf8EncodeChar] at size
        omega

section Scalars

theorem toNat_ofNat_valid {value : Nat} (valid : value.isValidChar) :
    (Char.ofNat value).toNat = value := by
  rw [Char.ofNat, dif_pos valid]
  rfl

theorem escapeByte_toNat (byte : UInt8) : (escapeByte byte).toNat = puaBase + byte.toNat := by
  have small := byte.toNat_lt
  have valid : (puaBase + byte.toNat).isValidChar := by
    unfold puaBase
    exact .inr ⟨by omega, by omega⟩
  rw [escapeByte, if_pos valid, toNat_ofNat_valid valid]

theorem bytesOfChar_escapeByte (byte : UInt8) : bytesOfChar (escapeByte byte) = [byte] := by
  have bound : byte.toNat <= 0xFF := by
    have small := byte.toNat_lt
    omega
  have value := escapeByte_toNat byte
  have last : puaEnd = puaBase + 0xFF := rfl
  have window : puaBase <= (escapeByte byte).toNat ∧ (escapeByte byte).toNat <= puaEnd := by
    omega
  rw [bytesOfChar, if_pos window, value, Nat.add_sub_cancel_left, UInt8.ofNat_toNat]

theorem bytesOfChar_window (c : Char) :
    (charEscapingWindow c).flatMap bytesOfChar = String.utf8EncodeChar c := by
  unfold charEscapingWindow
  split
  case isTrue =>
    rw [List.flatMap_map]
    simp only [bytesOfChar_escapeByte, List.flatMap_singleton']
  case isFalse outside =>
    have plain : ¬ (puaBase <= c.toNat ∧ c.toNat <= puaEnd) := by
      simpa [isEscapeScalar] using outside
    simp [bytesOfChar, plain]

theorem utf8EncodeChar_ascii {byte : UInt8} (ascii : byte.toNat < 128) :
    String.utf8EncodeChar (Char.ofNat byte.toNat) = [byte] := by
  have valid : byte.toNat.isValidChar := .inl (by omega)
  have value := toNat_ofNat_valid valid
  have single : (Char.ofNat byte.toNat).utf8Size = 1 := by
    apply Char.utf8Size_eq_one_iff.mpr
    apply UInt32.le_iff_toNat_le.mpr
    change (Char.ofNat byte.toNat).toNat <= 127
    rw [value]
    omega
  rw [String.utf8EncodeChar_eq_singleton single]
  congr 1
  apply UInt8.toNat_inj.mp
  change (Char.ofNat byte.toNat).toNat % 256 = byte.toNat
  rw [value]
  omega

theorem charEscapingWindow_ascii {byte : UInt8} (ascii : byte.toNat < 128) :
    charEscapingWindow (Char.ofNat byte.toNat) = [Char.ofNat byte.toNat] := by
  have valid : byte.toNat.isValidChar := .inl (by omega)
  have value := toNat_ofNat_valid valid
  have outside : isEscapeScalar (Char.ofNat byte.toNat) = false := by
    simp only [isEscapeScalar, value, puaBase, Bool.and_eq_false_iff, decide_eq_false_iff_not]
    omega
  simp [charEscapingWindow, outside]

end Scalars

theorem encodeLoop_ascii
    (ascii : ∀ byte ∈ bytes, byte.toNat < 128) :
    encodeLoop bytes = bytes.map (fun byte => Char.ofNat byte.toNat) := by
  induction bytes with
  | nil => exact encodeLoop_nil
  | cons byte rest ih =>
    have small := ascii byte List.mem_cons_self
    have one := encodeLoop_valid (Char.ofNat byte.toNat) rest
    rw [utf8EncodeChar_ascii small, charEscapingWindow_ascii small] at one
    simp only [List.singleton_append] at one
    rw [one, List.map_cons, ih
      (fun other member => ascii other (List.mem_cons_of_mem _ member))]

theorem encodeBytes_eq (bytes : List UInt8) : encodeBytes bytes = String.ofList (encodeLoop bytes) := by
  unfold encodeBytes
  split
  case isTrue ascii =>
    rw [encodeLoop_ascii (fun byte member => by simpa using List.all_eq_true.mp ascii byte member)]
  case isFalse => rfl

theorem toList_encodeBytes (bytes : List UInt8) : (encodeBytes bytes).toList = encodeLoop bytes := by
  rw [encodeBytes_eq, String.toList_ofList]

theorem decode_encodeLoop (bytes : List UInt8) :
    (encodeLoop bytes).flatMap bytesOfChar = bytes := by
  induction bytes using path_induction with
  | empty => rw [encodeLoop_nil, List.flatMap_nil]
  | valid c rest ih =>
    rw [encodeLoop_valid, List.flatMap_append, bytesOfChar_window, ih]
  | invalid byte rest undecodable ih =>
    rw [encodeLoop_invalid undecodable, List.flatMap_cons, bytesOfChar_escapeByte,
      ih, List.singleton_append]

section Components

def slash : UInt8 := 0x2F

/-- No continuation byte equals a byte that can start a scalar, so a stretch
that is undecodable stays so when such a byte follows it. -/
theorem headChar_append_slash {bytes : List UInt8} (nonempty : bytes ≠ [])
    (invalid : headChar bytes = none) (rest : List UInt8) :
    headChar (bytes ++ slash :: rest) = none := by
  cases head : headChar (bytes ++ slash :: rest) with
  | none => rfl
  | some c =>
    rcases headChar_eq_some.mp head with ⟨later, split⟩
    rcases List.append_eq_append_iff.mp split with ⟨middle, longer, tail⟩ | ⟨middle, shorter, tail⟩
    · cases middle with
      | nil =>
        rw [List.append_nil] at longer
        have valid : headChar bytes = some c := headChar_eq_some.mpr ⟨[], by simp [longer]⟩
        rw [invalid] at valid
        cases valid
      | cons first middle =>
        simp only [List.cons_append, List.cons.injEq] at tail
        have inside : bytes.length < (String.utf8EncodeChar c).length := by
          rw [longer]
          simp
        have byteIs : (String.utf8EncodeChar c)[bytes.length] = slash := by
          simp only [longer, List.getElem_append_right Nat.le.refl, Nat.sub_self,
            List.getElem_cons_zero, tail.1]
        have first : (String.utf8EncodeChar c)[bytes.length].IsUTF8FirstByte := by
          rw [byteIs]
          decide
        have start := UInt8.isUTF8FirstByte_getElem_utf8EncodeChar.mp first
        exact absurd (List.length_eq_zero_iff.mp start) nonempty
    · have valid : headChar bytes = some c := headChar_eq_some.mpr ⟨middle, shorter⟩
      rw [invalid] at valid
      cases valid

/-- The separator is carried as itself and splits the work of the loop. -/
theorem encodeLoop_slash (first second : List UInt8) :
    encodeLoop (first ++ slash :: second) = encodeLoop first ++ '/' :: encodeLoop second := by
  induction first using path_induction with
  | empty =>
    have one := encodeLoop_valid (Char.ofNat slash.toNat) second
    rw [utf8EncodeChar_ascii (by decide), charEscapingWindow_ascii (by decide)] at one
    rw [encodeLoop_nil]
    exact one
  | valid c rest ih =>
    rw [List.append_assoc, encodeLoop_valid, encodeLoop_valid, ih,
      List.append_assoc]
  | invalid byte rest undecodable ih =>
    have longer := headChar_append_slash (List.cons_ne_nil byte rest) undecodable second
    rw [List.cons_append] at longer ⊢
    rw [encodeLoop_invalid longer, encodeLoop_invalid undecodable, ih,
      List.cons_append]

theorem mem_of_mem_encodeLoop {bytes : List UInt8} {byte : UInt8} (ascii : byte.toNat < 128)
    (member : Char.ofNat byte.toNat ∈ encodeLoop bytes) : byte ∈ bytes := by
  have carried := decode_encodeLoop bytes
  rw [<- carried]
  refine List.mem_flatMap.mpr ⟨_, member, ?_⟩
  have window := bytesOfChar_window (Char.ofNat byte.toNat)
  rw [charEscapingWindow_ascii ascii, utf8EncodeChar_ascii ascii] at window
  simp only [List.flatMap_singleton] at window
  rw [window]
  exact List.mem_singleton_self byte

theorem splitOn_encodeLoop (bytes : List UInt8) :
    (encodeLoop bytes).splitOn '/' = (bytes.splitOn slash).map encodeLoop := by
  induction size : bytes.length using Nat.strongRecOn generalizing bytes with
  | _ count ih =>
    by_cases member : slash ∈ bytes
    · rcases List.append_of_mem member with ⟨first, second, rfl⟩
      simp only [List.length_append, List.length_cons] at size
      rw [encodeLoop_slash, List.splitOn_append_cons_self, List.splitOn_append_cons_self,
        List.map_append, ih _ (by omega) first rfl,
        ih _ (by omega) second rfl]
    · have absent : '/' ∉ encodeLoop bytes :=
        fun carried => member (mem_of_mem_encodeLoop (by decide) carried)
      rw [List.splitOn_eq_singleton absent, List.splitOn_eq_singleton member]
      rfl

end Components

/-- What makes the codec fit for paths: every path is carried and read back,
component by component, and no component gains a separator or a NUL. -/
structure PathCodec (encode : List UInt8 -> String) (decode : String -> List UInt8) : Prop where
  roundTrip : ∀ bytes, decode (encode bytes) = bytes
  injective : Function.Injective encode
  backTrip : ∀ carried, (∃ bytes, encode bytes = carried) ->
    encode (decode carried) = carried
  joined : ∀ first second,
    encode (first ++ slash :: second) = encode first ++ "/" ++ encode second
  components : ∀ bytes, (encode bytes).toList.splitOn '/' =
    (bytes.splitOn slash).map (fun component => (encode component).toList)
  noSlash : ∀ component, slash ∉ component -> '/' ∉ (encode component).toList
  noNul : ∀ component, (0 : UInt8) ∉ component -> Char.ofNat 0 ∉ (encode component).toList

/-- The codec round-trips every byte string in both directions and commutes
with path structure. -/
theorem encodeBytes_pathCodec : PathCodec encodeBytes decodeToBytes := by
  have roundTrip : ∀ bytes, decodeToBytes (encodeBytes bytes) = bytes := by
    intro bytes
    rw [decodeToBytes, toList_encodeBytes, decode_encodeLoop]
  constructor
  case roundTrip => exact roundTrip
  case injective => exact Function.LeftInverse.injective roundTrip
  case backTrip =>
    rintro carried ⟨bytes, rfl⟩
    rw [roundTrip]
  case joined =>
    intro first second
    apply String.toList_inj.mp
    rw [toList_encodeBytes, encodeLoop_slash, String.toList_append, String.toList_append,
      toList_encodeBytes, toList_encodeBytes]
    simp
  case components =>
    intro bytes
    simp only [toList_encodeBytes]
    exact splitOn_encodeLoop bytes
  case noSlash =>
    intro component absent carried
    rw [toList_encodeBytes] at carried
    exact absent (mem_of_mem_encodeLoop (by decide) carried)
  case noNul =>
    intro component absent carried
    rw [toList_encodeBytes] at carried
    exact absent (mem_of_mem_encodeLoop (by decide) carried)

end Vfs
end Carrick
