import Carrick.Inotify.EventQueue

namespace Carrick
namespace Inotify

open Foundation
open List (append_assoc append_inj length_append length_take)

/-!
# The records a buffer holds

The wire form of an event is defined on its own, and each piece of the queue is
compared with it: what is written for an event, when the last record counts as
the same, and how long the parser takes a record to be.
-/

theorem length_toNeBytes (word : UInt32) : (toNeBytes word).length = 4 := rfl

theorem fromNeBytes_toNeBytes (word : UInt32) : fromNeBytes (toNeBytes word) = word := by
  have small := word.toNat_lt
  apply UInt32.toNat_inj.mp
  simp only [fromNeBytes, toNeBytes, List.foldr_cons, List.foldr_nil, UInt8.toNat_ofNat',
    UInt32.toNat_ofNat']
  omega

theorem toNeBytes_injective : Function.Injective toNeBytes := by
  intro word other same
  rw [<- fromNeBytes_toNeBytes word, same, fromNeBytes_toNeBytes]

theorem toUInt32_injective : Function.Injective Int32.toUInt32 := by
  intro word other same
  have back := congrArg UInt32.toInt32 same
  simpa using back

namespace Record

/-- The name of a record as it lies in the buffer. -/
def nameBytes (record : Record) : List UInt8 :=
  match record.name with
  | none => []
  | some name => name ++ List.replicate (record.len - inotifyEventHeaderSize - name.length) 0

/-- The record of an event as `read` returns it. -/
def wire (record : Record) : List UInt8 :=
  toNeBytes record.wd.toUInt32 ++ (toNeBytes record.mask ++ (toNeBytes record.cookie ++
    (toNeBytes (UInt32.ofNat (record.len - inotifyEventHeaderSize)) ++ record.nameBytes)))

/-- The length field of the record can hold the size of its name. -/
def Representable (record : Record) : Prop :=
  record.len - inotifyEventHeaderSize < 2 ^ 32

theorem header_le (record : Record) : inotifyEventHeaderSize <= record.len := by
  unfold len encodedRecordLen
  split
  case h_1 => exact le_rfl
  case h_2 => exact Nat.le_add_right _ _

theorem length_nameBytes (record : Record) :
    record.nameBytes.length = record.len - inotifyEventHeaderSize := by
  unfold nameBytes
  split
  case h_1 none =>
    simp [len, none, encodedRecordLen]
  case h_2 name some =>
    simp only [len, some, Option.map_some, encodedRecordLen, length_append,
      List.length_replicate]
    omega

theorem length_wire (record : Record) : record.wire.length = record.len := by
  have header := record.header_le
  unfold wire
  simp only [length_append, length_toNeBytes, length_nameBytes]
  unfold inotifyEventHeaderSize at header ⊢
  omega

variable {record : Record}

theorem nameBytes_some {name : List UInt8} (named : record.name = some name) :
    record.nameBytes =
      name ++ List.replicate (record.len - inotifyEventHeaderSize - name.length) 0 := by
  simp only [nameBytes, named]

theorem nameBytes_none (unnamed : record.name = none) :
    record.nameBytes = [] := by
  simp only [nameBytes, unnamed]

theorem name_fits {name : List UInt8} (named : record.name = some name) :
    name.length <= record.len - inotifyEventHeaderSize := by
  simp only [len, named, Option.map_some, encodedRecordLen]
  omega

theorem wire_eq_iff {other : Record} (lengths : record.len = other.len) :
    record.wire = other.wire <->
      record.wd = other.wd ∧ record.mask = other.mask ∧ record.cookie = other.cookie ∧
        record.nameBytes = other.nameBytes := by
  constructor
  · intro same
    rcases append_inj same (by rfl) with ⟨first, same⟩
    rcases append_inj same (by rfl) with ⟨second, same⟩
    rcases append_inj same (by rfl) with ⟨third, same⟩
    rcases append_inj same (by rfl) with ⟨_, names⟩
    exact ⟨toUInt32_injective (toNeBytes_injective first), toNeBytes_injective second,
      toNeBytes_injective third, names⟩
  · rintro ⟨first, second, third, names⟩
    unfold wire
    rw [first, second, third, names, lengths]

end Record

/-- Writing two stretches one after the other is writing them together. -/
theorem overwrite_overwrite {items : List UInt8} {start : Nat} {first second : List UInt8}
    (inside : start + first.length + second.length <= items.length) :
    overwrite (overwrite items start first) (start + first.length) second =
      overwrite items start (first ++ second) := by
  have front : (items.take start ++ first).length = start + first.length := by
    rw [length_append, length_take]
    omega
  have head : (overwrite items start first).take (start + first.length) =
      items.take start ++ first := by
    unfold overwrite
    rw [<- front, List.take_left]
  have back : (overwrite items start first).drop (start + first.length + second.length) =
      items.drop (start + (first ++ second).length) := by
    unfold overwrite
    rw [List.drop_append, front, List.drop_eq_nil_of_le (by omega), List.nil_append,
      List.drop_drop, length_append]
    congr 1
    omega
  rw [overwrite, head, back, overwrite]
  simp only [append_assoc]

namespace InotifyEventQueue

theorem writeRecord_eq {buf : List UInt8} {start : Nat} {record : Record}
    (inside : start + record.len <= buf.length) :
    writeRecord buf start record = overwrite buf start record.wire := by
  have header := record.header_le
  have nameLength := record.length_nameBytes
  have four := length_toNeBytes
  have words : overwrite (overwrite (overwrite (overwrite buf start
        (toNeBytes record.wd.toUInt32)) (start + 4) (toNeBytes record.mask)) (start + 8)
        (toNeBytes record.cookie)) (start + 12)
        (toNeBytes (UInt32.ofNat (record.len - inotifyEventHeaderSize))) =
      overwrite buf start (toNeBytes record.wd.toUInt32 ++ toNeBytes record.mask ++
        toNeBytes record.cookie ++
        toNeBytes (UInt32.ofNat (record.len - inotifyEventHeaderSize))) := by
    unfold inotifyEventHeaderSize at header
    rw [<- four record.wd.toUInt32, overwrite_overwrite (by simp only [four]; omega)]
    rw [show start + 8 = start + (toNeBytes record.wd.toUInt32 ++ toNeBytes record.mask).length from
      rfl, overwrite_overwrite (by simp only [length_append, four]; omega)]
    rw [show start + 12 = start + (toNeBytes record.wd.toUInt32 ++ toNeBytes record.mask ++
      toNeBytes record.cookie).length from rfl,
      overwrite_overwrite (by simp only [length_append, four]; omega)]
  have wireIs : record.wire = toNeBytes record.wd.toUInt32 ++ toNeBytes record.mask ++
      toNeBytes record.cookie ++ toNeBytes (UInt32.ofNat (record.len - inotifyEventHeaderSize)) ++
      record.nameBytes := by
    simp only [Record.wire, append_assoc]
  unfold writeRecord
  simp only [words]
  rw [wireIs]
  generalize headerIs : toNeBytes record.wd.toUInt32 ++ toNeBytes record.mask ++
    toNeBytes record.cookie ++
    toNeBytes (UInt32.ofNat (record.len - inotifyEventHeaderSize)) = headerBytes
  have headerLength : headerBytes.length = inotifyEventHeaderSize := by
    rw [<- headerIs]
    rfl
  split
  case h_1 unnamed => rw [Record.nameBytes_none unnamed, List.append_nil]
  case h_2 name named =>
    have nameFits := Record.name_fits named
    have paddingLength : (List.replicate (record.len - inotifyEventHeaderSize - name.length)
        (0 : UInt8)).length = record.len - inotifyEventHeaderSize - name.length :=
      List.length_replicate
    rw [Record.nameBytes_some named]
    generalize List.replicate (record.len - inotifyEventHeaderSize - name.length) (0 : UInt8) =
      padding at paddingLength
    rw [<- headerLength] at header nameFits paddingLength ⊢
    have sized : (overwrite buf start headerBytes).length = buf.length :=
      length_overwrite (by omega)
    rw [overwrite_overwrite (by rw [sized]; omega),
      overwrite_overwrite (by simp only [length_append]; omega)]

end InotifyEventQueue

/-- The bytes of a sequence of records. -/
def stored (records : List Record) : List UInt8 :=
  records.flatMap Record.wire

theorem stored_append (first second : List Record) :
    stored (first ++ second) = stored first ++ stored second :=
  List.flatMap_append

theorem stored_cons (record : Record) (records : List Record) :
    stored (record :: records) = record.wire ++ stored records :=
  List.flatMap_cons

theorem stored_nil : stored [] = [] := rfl

/-- The buffer of a queue is the bytes of the records, with the counters that
belong to them. -/
structure Holds {bytes : Nat} (queue : InotifyEventQueue bytes) (records : List Record) : Prop where
  sized : queue.buf.length = bytes
  used : queue.used = (stored records).length
  within : queue.used <= bytes
  content : queue.buf.take queue.used = stored records
  count : queue.count = records.length
  tail : queue.tail = (stored records.dropLast).length
  representable : ∀ record ∈ records, record.Representable

section Reading

variable {buf : List UInt8} {used : Nat}

theorem slice_content {content before part after : List UInt8} (taken : buf.take used = content)
    (split : content = before ++ (part ++ after)) :
    slice buf before.length part.length = part := by
  have inside : before.length + part.length <= used := by
    have lengths := congrArg List.length taken
    rw [split] at lengths
    simp only [length_take, length_append] at lengths
    omega
  have same : slice buf before.length part.length =
      slice (buf.take used) before.length part.length := by
    unfold slice
    rw [List.drop_take, List.take_take, Nat.min_eq_left (by omega)]
  rw [same, taken, split, slice, List.drop_left, List.take_left]

variable {before after : List UInt8} {record : Record}

section Taken

variable (taken : buf.take used = before ++ (record.wire ++ after))

include taken

theorem recordLenAt_wire :
    InotifyEventQueue.recordLenAt buf before.length =
      inotifyEventHeaderSize + (record.len - inotifyEventHeaderSize) % 2 ^ 32 := by
  have parts : before ++ (record.wire ++ after) =
      (before ++ (toNeBytes record.wd.toUInt32 ++ (toNeBytes record.mask ++
        toNeBytes record.cookie))) ++
      (toNeBytes (UInt32.ofNat (record.len - inotifyEventHeaderSize)) ++
        (record.nameBytes ++ after)) := by
    simp only [Record.wire, append_assoc]
  have field := slice_content taken parts
  have place : (before ++ (toNeBytes record.wd.toUInt32 ++ (toNeBytes record.mask ++
      toNeBytes record.cookie))).length = before.length + 12 := by
    simp only [length_append, length_toNeBytes]
  rw [place, length_toNeBytes] at field
  unfold InotifyEventQueue.recordLenAt
  rw [field, fromNeBytes_toNeBytes, UInt32.toNat_ofNat']

theorem recordLenAt_eq (fits : record.Representable) :
    InotifyEventQueue.recordLenAt buf before.length = record.len := by
  have header := record.header_le
  rw [recordLenAt_wire taken, Nat.mod_eq_of_lt fits]
  omega

theorem field_content :
    fromNeBytes (slice buf (before.length + 0) 4) = record.wd.toUInt32 ∧
      fromNeBytes (slice buf (before.length + 4) 4) = record.mask ∧
      fromNeBytes (slice buf (before.length + 8) 4) = record.cookie := by
  have first := slice_content taken (show before ++ (record.wire ++ after) = before ++
    (toNeBytes record.wd.toUInt32 ++ (toNeBytes record.mask ++ (toNeBytes record.cookie ++
      (toNeBytes (UInt32.ofNat (record.len - inotifyEventHeaderSize)) ++
        (record.nameBytes ++ after))))) by simp only [Record.wire, append_assoc])
  have second := slice_content taken (show before ++ (record.wire ++ after) =
    (before ++ toNeBytes record.wd.toUInt32) ++ (toNeBytes record.mask ++
      (toNeBytes record.cookie ++
      (toNeBytes (UInt32.ofNat (record.len - inotifyEventHeaderSize)) ++
        (record.nameBytes ++ after)))) by simp only [Record.wire, append_assoc])
  have third := slice_content taken (show before ++ (record.wire ++ after) =
    (before ++ (toNeBytes record.wd.toUInt32 ++ toNeBytes record.mask)) ++
      (toNeBytes record.cookie ++
      (toNeBytes (UInt32.ofNat (record.len - inotifyEventHeaderSize)) ++
        (record.nameBytes ++ after))) by simp only [Record.wire, append_assoc])
  simp only [length_append, length_toNeBytes] at first second third
  rw [Nat.add_zero, first, second, third, fromNeBytes_toNeBytes, fromNeBytes_toNeBytes,
    fromNeBytes_toNeBytes]
  exact ⟨rfl, rfl, rfl⟩

theorem name_content {split : Nat} (inside : split <= record.len - inotifyEventHeaderSize) :
    slice buf (before.length + inotifyEventHeaderSize) split = record.nameBytes.take split ∧
      slice buf (before.length + inotifyEventHeaderSize + split)
        (record.len - inotifyEventHeaderSize - split) = record.nameBytes.drop split := by
  have nameLength := record.length_nameBytes
  generalize headerIs : toNeBytes record.wd.toUInt32 ++ (toNeBytes record.mask ++
    (toNeBytes record.cookie ++
      toNeBytes (UInt32.ofNat (record.len - inotifyEventHeaderSize)))) = header
  have headerLength : header.length = inotifyEventHeaderSize := by
    rw [<- headerIs]
    rfl
  have wireIs : record.wire = header ++ record.nameBytes := by
    rw [<- headerIs]
    simp only [Record.wire, append_assoc]
  have first := slice_content taken (show before ++ (record.wire ++ after) =
    (before ++ header) ++ (record.nameBytes.take split ++ (record.nameBytes.drop split ++ after)) by
      rw [wireIs, <- append_assoc (record.nameBytes.take split), List.take_append_drop]
      simp only [append_assoc])
  have second := slice_content taken (show before ++ (record.wire ++ after) =
    (before ++ (header ++ record.nameBytes.take split)) ++
      (record.nameBytes.drop split ++ after) by
      rw [wireIs]
      simp only [append_assoc]
      rw [<- append_assoc (record.nameBytes.take split), List.take_append_drop])
  simp only [length_append, length_take, List.length_drop, headerLength, nameLength,
    Nat.min_eq_left inside] at first second
  rw [Nat.add_assoc]
  exact ⟨first, second⟩

end Taken

end Reading

theorem eq_append_replicate_iff {content name : List UInt8} {padding : Nat}
    (sized : content.length = name.length + padding) :
    content = name ++ List.replicate padding 0 <->
      content.take name.length = name ∧
        (content.drop name.length).all (fun byte => byte = 0) = true := by
  constructor
  · rintro rfl
    simp
  rintro ⟨front, back⟩
  have zeros : content.drop name.length = List.replicate padding 0 := by
    apply List.eq_replicate_iff.mpr
    refine ⟨by rw [List.length_drop]; omega, ?_⟩
    intro byte member
    simpa using List.all_eq_true.mp back byte member
  calc
    content = content.take name.length ++ content.drop name.length :=
      (List.take_append_drop _ _).symm
    _ = name ++ List.replicate padding 0 := by rw [front, zeros]

/-- The comparison with the last record tells whether it has the same bytes. -/
theorem tailEquals_iff {bytes : Nat} {queue : InotifyEventQueue bytes} {records : List Record}
    (holds : Holds queue records) (record : Record) :
    queue.tailEquals record = true <->
      ∃ last, records.getLast? = some last ∧ last.wire = record.wire := by
  rcases List.eq_nil_or_concat records with empty | ⟨earlier, last, split⟩
  · subst empty
    have none : queue.count = 0 := holds.count
    simp [InotifyEventQueue.tailEquals, none]
  subst split
  have some : ¬ queue.count = 0 := by
    rw [holds.count]
    simp
  have content : queue.buf.take queue.used = stored earlier ++ (last.wire ++ []) := by
    rw [holds.content, List.concat_eq_append, stored_append, stored_cons, stored_nil]
  have tail : queue.tail = (stored earlier).length := by
    rw [holds.tail]
    simp
  have span : queue.used - queue.tail = last.len := by
    rw [holds.used, tail, List.concat_eq_append, stored_append, stored_cons, stored_nil,
      List.append_nil, length_append, Record.length_wire]
    omega
  have words := field_content content
  unfold InotifyEventQueue.tailEquals
  rw [if_neg some, span, List.concat_eq_append, List.getLast?_concat]
  by_cases lengths : last.len = record.len
  · have equal := Record.wire_eq_iff lengths
    rw [if_neg (by simpa using lengths)]
    simp only [tail, words.1, words.2.1, words.2.2, Option.some.injEq, exists_eq_left', equal,
      Int32.toInt32_toUInt32]
    by_cases same : last.wd = record.wd ∧ last.mask = record.mask ∧ last.cookie = record.cookie
    · rw [if_neg (by simp [same.1, same.2.1, same.2.2])]
      simp only [same.1, same.2.1, same.2.2, true_and]
      have lastLength := last.length_nameBytes
      cases named : record.name with
      | none =>
        have recordLength := record.length_nameBytes
        rw [Record.nameBytes_none named] at recordLength ⊢
        rw [lengths, <- recordLength] at lastLength
        simp [List.length_eq_zero_iff.mp lastLength]
      | some name =>
        have nameFits := Record.name_fits named
        have inLast : name.length <= last.len - inotifyEventHeaderSize := by
          rw [lengths]
          exact nameFits
        have stretches := name_content content inLast
        rw [lengths] at stretches lastLength
        rw [Record.nameBytes_some named, eq_append_replicate_iff (by omega)]
        simp only [stretches.1, stretches.2, Bool.and_eq_true, decide_eq_true_eq]
    · rw [if_pos (by simp only [ne_eq]; tauto)]
      simp only [Bool.false_eq_true, false_iff]
      tauto
  · rw [if_pos lengths]
    simp only [Bool.false_eq_true, Option.some.injEq, exists_eq_left', false_iff]
    intro same
    have longer := congrArg List.length same
    rw [Record.length_wire, Record.length_wire] at longer
    exact lengths longer

end Inotify
end Carrick
