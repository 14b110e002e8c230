import Carrick.Foundation.Word

namespace Carrick
namespace SoftMmu

open Foundation

/-!
# The software translation buffer

Three direct-mapped planes of 1024 slots, one for each kind of access.  A slot
holds the page it translates together with the mode bits, and what to add to an
address of that page to get its host address.  The size of the leaf that a slot
was filled from is kept beside it, so that an eviction inside a large leaf
reaches every slice of it.  The work counters of the source are left out.
-/

def pageSize : Nat := 4096

def slotCount : Nat := 1024

def pageBase (address : Nat) : Nat :=
  address - address % pageSize

inductive Access where
  | read
  | write
  | execute
deriving DecidableEq, Repr

structure CpuAccessMode where
  ring3 : Bool
  ac : Bool
  cr0Wp : Bool
  cr4Smep : Bool
  cr4Smap : Bool
  eferNxe : Bool
deriving DecidableEq, Repr

/-- An address that a guest can form. -/
structure GuestVa where
  raw : Nat
  bounded : raw < wordLimit

structure SoftTlbEntry where
  tag : Nat
  addend : Nat
deriving DecidableEq, Repr

namespace SoftTlbEntry

def invalid : SoftTlbEntry where
  tag := wordLimit - 1
  addend := 0

def isValid (entry : SoftTlbEntry) : Bool :=
  entry.tag ≠ wordLimit - 1

def vaPage (entry : SoftTlbEntry) : Nat :=
  pageBase entry.tag

def translate (entry : SoftTlbEntry) (va : Nat) : Nat :=
  (va + entry.addend) % wordLimit

end SoftTlbEntry

structure SoftTlb where
  entries : Access -> Nat -> SoftTlbEntry
  leafShifts : Access -> Nat -> Nat
  largePageEntries : Nat

def indexFor (va : GuestVa) : Nat :=
  va.raw / pageSize % slotCount

def modeTagBits (mode : CpuAccessMode) : Nat :=
  (if mode.ring3 then 1
    else
      (if mode.ac && mode.cr4Smap then 2 else 0) + (if mode.cr0Wp then 0 else 4) +
        (if mode.cr4Smep then 0 else 8) + (if mode.cr4Smap then 0 else 16)) +
    (if mode.eferNxe then 0 else 32)

def tagFor (va : GuestVa) (mode : CpuAccessMode) : Nat :=
  pageBase va.raw + modeTagBits mode

def addendFor (va : GuestVa) (hostPage : Nat) : Nat :=
  wrappingSub (pageBase hostPage) (pageBase va.raw)

def shiftForLeafSize (bytes : Nat) : Nat :=
  if 2 ^ 30 <= bytes then 30 else if 2 ^ 21 <= bytes then 21 else 12

def crossesPage (va : GuestVa) (len : Nat) : Bool :=
  decide (len ≠ 0) && decide (pageSize < va.raw % pageSize + len)

namespace SoftTlb

def new : SoftTlb where
  entries := fun _ _ => .invalid
  leafShifts := fun _ _ => 0
  largePageEntries := 0

def probe (tlb : SoftTlb) (va : GuestVa) (len : Nat) (access : Access) (mode : CpuAccessMode) :
    Option Nat :=
  if crossesPage va len then none
  else if (tlb.entries access (indexFor va)).tag = tagFor va mode then
    some ((tlb.entries access (indexFor va)).translate va.raw)
  else none

/-- One slot of a plane gets another entry and leaf shift. -/
def setSlot (tlb : SoftTlb) (access : Access) (slot : Nat) (entry : SoftTlbEntry) (shift : Nat)
    (large : Nat) : SoftTlb where
  entries := fun plane index =>
    if plane = access ∧ index = slot then entry else tlb.entries plane index
  leafShifts := fun plane index =>
    if plane = access ∧ index = slot then shift else tlb.leafShifts plane index
  largePageEntries := large

/-- The large slots that are left when a slot is emptied. -/
def largeWithout (tlb : SoftTlb) (access : Access) (slot : Nat) : Nat :=
  if 12 < tlb.leafShifts access slot then tlb.largePageEntries - 1 else tlb.largePageEntries

def fillPlaneWithLeafSize (tlb : SoftTlb) (access : Access) (va : GuestVa) (mode : CpuAccessMode)
    (hostPage leafSize : Nat) : SoftTlb :=
  let kept := tlb.largeWithout access (indexFor va)
  let shift := shiftForLeafSize leafSize
  tlb.setSlot access (indexFor va) ⟨tagFor va mode, addendFor va hostPage⟩ shift
    (if 12 < shift then min (kept + 1) (2 ^ 32 - 1) else kept)

def flushAll (_ : SoftTlb) : SoftTlb :=
  new

def flushWritePlane (tlb : SoftTlb) : SoftTlb where
  entries := fun plane index => if plane = .write then .invalid else tlb.entries plane index
  leafShifts := fun plane index => if plane = .write then 0 else tlb.leafShifts plane index
  largePageEntries := tlb.largePageEntries -
    (List.range slotCount).countP fun slot => 12 < tlb.leafShifts .write slot

def clearSlotInPlane (tlb : SoftTlb) (access : Access) (slot : Nat) : SoftTlb :=
  tlb.setSlot access slot .invalid 0 (tlb.largeWithout access slot)

/-- One slot of the walk over the slots of large leaves. -/
def evictSlot (va : GuestVa) (access : Access) (tlb : SoftTlb) (slot : Nat) : SoftTlb :=
  let shift := tlb.leafShifts access slot
  let entry := tlb.entries access slot
  if 12 < shift then
    if entry.isValid then
      if entry.vaPage / 2 ^ shift = va.raw / 2 ^ shift then tlb.clearSlotInPlane access slot
      else tlb
    else tlb.setSlot access slot entry 0 (tlb.largePageEntries - 1)
  else tlb

/-- The slot of the address itself. -/
def evictPage (tlb : SoftTlb) (access : Access) (va : GuestVa) : SoftTlb :=
  let entry := tlb.entries access (indexFor va)
  if entry.isValid && entry.vaPage == pageBase va.raw then
    tlb.clearSlotInPlane access (indexFor va)
  else tlb

def evictInPlane (tlb : SoftTlb) (access : Access) (va : GuestVa) : SoftTlb :=
  if 0 < (tlb.evictPage access va).largePageEntries then
    (List.range slotCount).foldl (evictSlot va access) (tlb.evictPage access va)
  else tlb.evictPage access va

def evictVa (tlb : SoftTlb) (va : GuestVa) : SoftTlb :=
  ((tlb.evictInPlane .read va).evictInPlane .write va).evictInPlane .execute va

def evictWriteVa (tlb : SoftTlb) (va : GuestVa) : SoftTlb :=
  tlb.evictInPlane .write va

/-- The pages from the first to the last of a range, each evicted in turn; the end
of the range saturates at the last address. -/
def evictRange (tlb : SoftTlb) (start : GuestVa) (len : Nat) : SoftTlb :=
  if len = 0 then tlb.evictVa start
  else
    let first := pageBase start.raw
    let last := pageBase (saturatingAdd start.raw (len - 1))
    let count := (last - first) / pageSize + 1
    if slotCount < count then tlb.flushAll
    else
      (List.range count).foldl
        (fun tlb page =>
          if bounded : first + page * pageSize < wordLimit then
            tlb.evictVa ⟨first + page * pageSize, bounded⟩
          else tlb) tlb

end SoftTlb

/-! ## What an eviction leaves -/

/-- Every slot keeps its entry or is emptied. -/
def Shrinks (tlb later : SoftTlb) : Prop :=
  ∀ access slot, later.entries access slot = tlb.entries access slot ∨
    later.entries access slot = .invalid

namespace Shrinks

variable {tlb middle later : SoftTlb}

theorem refl : Shrinks tlb tlb :=
  fun _ _ => .inl rfl

theorem trans (first : Shrinks tlb middle) (second : Shrinks middle later) : Shrinks tlb later := by
  intro access slot
  rcases second access slot with same | gone
  · rw [same]
    exact first access slot
  · exact .inr gone

theorem foldl {T : Type} {step : SoftTlb -> T -> SoftTlb}
    (each : ∀ tlb item, Shrinks tlb (step tlb item)) (items : List T) :
    Shrinks tlb (items.foldl step tlb) := by
  induction items generalizing tlb with
  | nil => exact refl
  | cons item rest ih => exact (each tlb item).trans ih

theorem setSlot {access : Access} {slot shift large : Nat} {entry : SoftTlbEntry}
    (allowed : entry = tlb.entries access slot ∨ entry = .invalid) :
    Shrinks tlb (tlb.setSlot access slot entry shift large) := by
  intro plane index
  unfold SoftTlb.setSlot
  dsimp only
  split_ifs with here
  · rw [here.1, here.2]
    exact allowed
  · exact .inl rfl

theorem evictSlot (va : GuestVa) (access : Access) (tlb : SoftTlb) (slot : Nat) :
    Shrinks tlb (SoftTlb.evictSlot va access tlb slot) := by
  unfold SoftTlb.evictSlot
  dsimp only
  split_ifs
  · exact setSlot (.inr rfl)
  · exact refl
  · exact setSlot (.inl rfl)
  · exact refl

theorem evictPage (access : Access) (va : GuestVa) : Shrinks tlb (tlb.evictPage access va) := by
  unfold SoftTlb.evictPage
  dsimp only
  split_ifs
  · exact setSlot (.inr rfl)
  · exact refl

theorem evictInPlane (access : Access) (va : GuestVa) : Shrinks tlb (tlb.evictInPlane access va) := by
  unfold SoftTlb.evictInPlane
  split_ifs
  · exact (evictPage access va).trans (foldl (evictSlot va access) (List.range slotCount))
  · exact evictPage access va

theorem evictVa (va : GuestVa) : Shrinks tlb (tlb.evictVa va) :=
  ((evictInPlane .read va).trans (evictInPlane .write va)).trans (evictInPlane .execute va)

theorem flushAll : Shrinks tlb tlb.flushAll :=
  fun _ _ => .inr rfl

theorem flushWritePlane : Shrinks tlb tlb.flushWritePlane := by
  intro access slot
  unfold SoftTlb.flushWritePlane
  dsimp only
  split_ifs
  · exact .inr rfl
  · exact .inl rfl

theorem evictRange (start : GuestVa) (len : Nat) : Shrinks tlb (tlb.evictRange start len) := by
  unfold SoftTlb.evictRange
  dsimp only
  split_ifs
  · exact evictVa start
  · exact flushAll
  refine foldl ?_ _
  intro tlb page
  split_ifs
  · exact evictVa _
  · exact refl

end Shrinks

end SoftMmu
end Carrick
