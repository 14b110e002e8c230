import Carrick.FdCore.FreeBitmap
import Carrick.Foundation.Tally

namespace Carrick
namespace FdCore

open Foundation

/-!
# Descriptor slots

A table's storage is an array of descriptor slots with the bitmap of its free
ones.  A slot names an open file description, carries its close-on-exec flag,
and may be claimed by an operation in flight; the claim and the entry are
independent.  The code packs the three into one word, the index plus one in the
low half and the two flags at the top; every published index plus one fits the
low half.

Every write of a slot marks it in the bitmap, so that the bitmap stays the
summary of the slots.
-/

structure Entry where
  ofd : Nat
  cloexec : Bool
  deriving DecidableEq, Repr

structure DescriptorSlot where
  entry : Option Entry
  reserved : Bool
  deriving DecidableEq, Repr

namespace DescriptorSlot

def vacant : DescriptorSlot := { entry := none, reserved := false }

/-- Neither an entry nor a claim. -/
def isFree (slot : DescriptorSlot) : Bool :=
  slot.entry.isNone && !slot.reserved

/-- One if the slot names the description, else zero. -/
def naming (ofd : Nat) (slot : DescriptorSlot) : Nat :=
  if slot.entry.map Entry.ofd = some ofd then 1 else 0

end DescriptorSlot

/-- The largest number of descriptors, one more than the largest `i32`. -/
@[irreducible] def maxDescriptors : Nat := 2147483648

structure TableStorage where
  entries : List DescriptorSlot
  levels : List Level
  deriving DecidableEq, Repr

namespace TableStorage

def capacity (storage : TableStorage) : Nat := storage.entries.length

def empty : TableStorage := { entries := [], levels := [] }

def slotAt (storage : TableStorage) (fd : Nat) : DescriptorSlot :=
  storage.entries.getD fd DescriptorSlot.vacant

def get (storage : TableStorage) (fd : Nat) : Option Entry :=
  (storage.slotAt fd).entry

def reserved (storage : TableStorage) (fd : Nat) : Bool :=
  (storage.slotAt fd).reserved

/-- Store a slot and mark whether it is free now. -/
def write (storage : TableStorage) (fd : Nat) (slot : DescriptorSlot) : TableStorage :=
  { entries := storage.entries.set fd slot, levels := markFree storage.levels fd slot.isFree }

/-- `set`: a new entry under the claim that is there. -/
def setEntry (storage : TableStorage) (fd : Nat) (entry : Option Entry) : TableStorage :=
  storage.write fd { entry := entry, reserved := storage.reserved fd }

def install (storage : TableStorage) (fd : Nat) (entry : Entry) : TableStorage :=
  storage.setEntry fd (some entry)

def vacate (storage : TableStorage) (fd : Nat) : TableStorage :=
  storage.setEntry fd none

def update (storage : TableStorage) (fd : Nat) (entry : Entry) : TableStorage :=
  storage.setEntry fd (some entry)

def reserve (storage : TableStorage) (fd : Nat) : TableStorage :=
  storage.write fd { entry := storage.get fd, reserved := true }

def unreserve (storage : TableStorage) (fd : Nat) : TableStorage :=
  storage.write fd { entry := storage.get fd, reserved := false }

/-- The storage of these slots with its bitmap computed afresh. -/
def rebuild (entries : List DescriptorSlot) : TableStorage :=
  { entries := entries,
    levels := rebuildLevels entries.length (entries.map DescriptorSlot.isFree) }

/-- `clear` of an extent of so many slots. -/
def cleared (capacity : Nat) : TableStorage :=
  rebuild (List.replicate capacity DescriptorSlot.vacant)

/-- The number of slots that name the description. -/
def naming (storage : TableStorage) (ofd : Nat) : Nat :=
  tally (DescriptorSlot.naming ofd) storage.entries

end TableStorage

/-! ## The bitmap summarises the slots -/

structure Consistent (storage : TableStorage) : Prop where
  summary : Summarises (storage.entries.map DescriptorSlot.isFree) storage.levels
  backed : storage.levels = [] -> storage.entries = []

theorem rebuild_consistent (entries : List DescriptorSlot) :
    Consistent (TableStorage.rebuild entries) := by
  refine ⟨rebuildLevels_summarises _ _ (by rw [List.length_map]; exact le_rfl), ?_⟩
  unfold TableStorage.rebuild
  cases entries with
  | nil => simp
  | cons slot rest =>
    intro none
    simp only [List.length_cons, rebuildLevels, List.map_cons, reduceCtorEq, if_false] at none
    split_ifs at none

theorem empty_consistent : Consistent TableStorage.empty := by
  refine ⟨?_, fun _ => rfl⟩
  show 0 <= 1
  omega

namespace TableStorage

variable {storage : TableStorage} {fd : Nat}

theorem write_consistent (consistent : Consistent storage) (inside : fd < storage.capacity)
    (slot : DescriptorSlot) : Consistent (storage.write fd slot) := by
  unfold capacity at inside
  constructor
  · unfold write
    rw [List.map_set]
    exact markFree_summarises _ _ _ _ consistent.summary (by rw [List.length_map]; exact inside)
  intro none
  have noLevels : storage.levels = [] := by
    unfold write at none
    cases levels : storage.levels with
    | nil => rfl
    | cons words upper =>
      rw [levels] at none
      cases none
  rw [consistent.backed noLevels] at inside
  exact absurd inside (Nat.not_lt_zero _)

@[simp] theorem capacity_write (storage : TableStorage) (fd : Nat) (slot : DescriptorSlot) :
    (storage.write fd slot).capacity = storage.capacity :=
  List.length_set

theorem slotAt_write (inside : fd < storage.capacity) (slot : DescriptorSlot) (other : Nat) :
    (storage.write fd slot).slotAt other = if other = fd then slot else storage.slotAt other := by
  unfold slotAt write capacity at *
  rw [List.getD_eq_getElem?_getD, List.getElem?_set]
  by_cases same : fd = other
  · rw [if_pos same, if_pos same.symm, if_pos inside, Option.getD_some]
  · rw [if_neg same, if_neg (Ne.symm same), List.getD_eq_getElem?_getD]

theorem getElem?_slotAt (inside : fd < storage.capacity) :
    storage.entries[fd]? = some (storage.slotAt fd) := by
  unfold slotAt
  rw [List.getD_eq_getElem?_getD, List.getElem?_eq_getElem inside, Option.getD_some]

theorem slotAt_beyond (beyond : storage.capacity <= fd) : storage.slotAt fd = DescriptorSlot.vacant := by
  unfold slotAt
  rw [List.getD_eq_getElem?_getD, List.getElem?_eq_none beyond, Option.getD_none]

theorem lt_capacity_of_get {entry : Entry} (found : storage.get fd = some entry) :
    fd < storage.capacity := by
  by_contra beyond
  unfold get at found
  rw [slotAt_beyond (Nat.le_of_not_lt beyond)] at found
  cases found

theorem naming_write (inside : fd < storage.capacity) (slot : DescriptorSlot) (ofd : Nat) :
    (storage.write fd slot).naming ofd + (storage.slotAt fd).naming ofd =
      storage.naming ofd + slot.naming ofd :=
  tally_set _ (getElem?_slotAt inside) slot

end TableStorage

/-! ## Allocation -/

inductive Error where
  | badFd
  | busy
  | invalidArgument
  | tooManyFiles
  | noMemory
  | needsOfds
  | staleTable
  | needsBacking (descriptors : Nat)
  | contended
  | badBacking
  | stalePin
  deriving DecidableEq, Repr

/-- The lowest free slot from `low` on, below the soft limit. -/
def lowest (storage : TableStorage) (limit low : Nat) : Option Nat :=
  if limit <= low then none
  else (nextBit storage.levels low).filter (fun fd => fd < limit)

def allocate (storage : TableStorage) (limit low : Nat) : Except Error Nat :=
  match lowest storage limit low with
  | some fd => .ok fd
  | none =>
    if max low storage.capacity < limit then
      .error (.needsBacking (max low storage.capacity + 1))
    else .error .tooManyFiles

theorem getD_isFree (storage : TableStorage) (fd : Nat) :
    (storage.entries.map DescriptorSlot.isFree).getD fd false =
      (decide (fd < storage.capacity) && (storage.slotAt fd).isFree) := by
  rw [List.getD_eq_getElem?_getD, List.getElem?_map]
  by_cases inside : fd < storage.capacity
  · rw [TableStorage.getElem?_slotAt inside]
    simp [inside]
  · rw [List.getElem?_eq_none (Nat.le_of_not_lt inside)]
    simp [inside]

/-- An allocated number is a free slot of the table below the soft limit. -/
theorem allocate_ok {storage : TableStorage} (consistent : Consistent storage) {limit low fd : Nat}
    (found : allocate storage limit low = .ok fd) :
    low <= fd ∧ fd < limit ∧ fd < storage.capacity ∧ (storage.slotAt fd).isFree = true := by
  unfold allocate at found
  cases searched : lowest storage limit low with
  | none =>
    rw [searched] at found
    simp only at found
    split_ifs at found
  | some candidate =>
    rw [searched, Except.ok.injEq] at found
    subst found
    unfold lowest at searched
    split_ifs at searched with short
    rw [Option.filter_eq_some_iff] at searched
    have below : candidate < limit := by simpa using searched.2
    have first := nextBit_lowest storage.levels _ low consistent.summary (by
      intro none
      rw [consistent.backed none]
      exact Nat.zero_le _)
    rw [searched.1] at first
    rw [Lowest, getD_isFree, Bool.and_eq_true, decide_eq_true_eq] at first
    exact ⟨first.1, below, first.2.1.1, first.2.1.2⟩

theorem isFree_entry {slot : DescriptorSlot} (free : slot.isFree = true) : slot.entry = none := by
  unfold DescriptorSlot.isFree at free
  rw [Bool.and_eq_true] at free
  exact Option.isNone_iff_eq_none.mp free.1

end FdCore
end Carrick
