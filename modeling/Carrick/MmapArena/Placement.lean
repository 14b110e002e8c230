import Carrick.MmapArena.FreeRegions
import Mathlib.Data.List.Sort

namespace Carrick
namespace MmapArena

open Foundation

/-!
# Host-setup placement of a new mapping

`nextMmapAddressInner` answers where a new mapping goes while the host owns
the address space: a `MAP_FIXED` request is served at its address, an advisory
hint above the bump cursor is honoured, and every other request takes the
first congruent fit of the free list, then the bump cursor, then a gap above
the high threshold.  `HostArena.release` is the inverse edit that an arena
`munmap` makes.

The rows of the address space that the alias and high-address searches consult
are edited by other system calls.  They are part of the state here, and no
arena edit depends on their content.
-/

def linuxPageSize : Nat := 4096
def linuxProtWrite : Nat := 0x2
def linuxMapFixed : Nat := 0x10

def linuxSharedFileBase : Nat := 0x9000000000
def linuxSharedFileSize : Nat := 0x80000000
def linuxPrivateOverlayBase : Nat := 0x9800000000
def linuxPrivateOverlaySize : Nat := 0x80000000
def linuxStackTop : Nat := 0xffffff0000
def linuxStackSize : Nat := 0x800000
def linuxRosettaVaBase : Nat := 0x800000000000
def linuxRosettaWindowSize : Nat := 0x200000
def linuxHighVaThreshold : Nat := 0x10000000000
def linuxPieDefaultBase : Nat := 0x8800000000

/-- Guest heap and mmap-arena placement.  The arena size is a clamped multiple
of a gibibyte over a fixed base and ends below the main image, which the three
proof fields record. -/
structure MemoryLayout where
  heapBase : Nat
  heapSize : Nat
  mmapBase : Nat
  mmapSize : Nat
  base_aligned : linuxPageSize ∣ mmapBase
  size_aligned : linuxPageSize ∣ mmapSize
  below_pie : mmapBase + mmapSize <= linuxPieDefaultBase

/-- The layout of a guest whose arena size was not configured. -/
def MemoryLayout.hvfDefault : MemoryLayout where
  heapBase := 0x4000000000
  heapSize := 0x8000000
  mmapBase := 0x6000000000
  mmapSize := 0x800000000
  base_aligned := by decide
  size_aligned := by decide
  below_pie := by decide

/-- A residue class of addresses: the modulus is a power of two, the residue
is page aligned and below the modulus. -/
structure ResidueClass where
  modulus : Nat
  residue : Nat
  power : ∃ exponent, exponent < 64 ∧ modulus = 2 ^ exponent
  below : residue < modulus
  aligned : linuxPageSize ∣ residue

/-- Where a non-`MAP_FIXED` arena grant may land relative to a modulus. -/
inductive MmapGrantCongruence where
  | any
  | residue (cls : ResidueClass)

/-- The first address at or after `start` that satisfies the congruence. -/
def MmapGrantCongruence.firstAtOrAfter (congruence : MmapGrantCongruence) (start : Nat) :
    Option Nat :=
  match congruence with
  | .any => some start
  | .residue cls =>
    let current := start &&& (cls.modulus - 1)
    let step := wrappingSub cls.residue current &&& (cls.modulus - 1)
    checkedAdd start step

/-- The placement facts the host owns: program break, bump cursor, free list.
Without a hint the free list is searched before the cursor is raised. -/
structure HostArena where
  brk : Nat
  mmapNext : Nat
  freeRegions : List Region

def HostArena.new (layout : MemoryLayout) : HostArena where
  brk := layout.heapBase
  mmapNext := layout.mmapBase
  freeRegions := []

/-- Return `[address, address + len)` to the arena: lower the cursor when the
range ends at it, otherwise park the range on the free list. -/
def HostArena.release (arena : HostArena) (address len : Nat) : HostArena :=
  if checkedAdd address len = some arena.mmapNext then
    let lowered := lowerMmapNext arena.freeRegions address
    { arena with mmapNext := lowered.1, freeRegions := lowered.2 }
  else { arena with freeRegions := freeRegionsInsert arena.freeRegions address len }

/-- The rows of the address space outside the arena's own bookkeeping:
`dynamicMaps` and `addressSpaceRegions` as `[start, end)`, `growdownRanges` as
`(_, current, end)`. -/
structure AddressSpaceRows where
  dynamicMaps : List (Nat × Nat)
  growdownRanges : List (Nat × Nat × Nat)
  addressSpaceRegions : Option (List (Nat × Nat))

/-- The part of the memory state that host-setup placement reads and writes,
with the watermark of what may have been written. -/
structure MemState where
  layout : MemoryLayout
  arena : HostArena
  mmapWritableHigh : Nat
  rows : AddressSpaceRows

def MemState.newWithLayout (layout : MemoryLayout) : MemState where
  layout := layout
  arena := HostArena.new layout
  mmapWritableHigh := layout.mmapBase
  rows := ⟨[], [], none⟩

/-- The arguments of one placement call. -/
structure MmapRequest where
  requested : Nat
  length : Nat
  prot : Nat
  flags : Nat
  congruence : MmapGrantCongruence
  userCeiling : Nat

def MmapRequest.writable (request : MmapRequest) : Bool :=
  decide (request.prot &&& linuxProtWrite ≠ 0)

def MmapRequest.fixed (request : MmapRequest) : Bool :=
  decide (request.flags &&& linuxMapFixed ≠ 0)

/-! ## Range predicates -/

def rangeWithin (address length base size : Nat) : Bool :=
  match checkedAdd address length, checkedAdd base size with
  | some stop, some limit => decide (base <= address) && decide (stop <= limit)
  | _, _ => false

def rangesOverlap (aStart aLen bStart bEnd : Nat) : Bool :=
  match checkedAdd aStart aLen with
  | some aEnd => decide (aStart < bEnd) && decide (bStart < aEnd)
  | none => true

def isHighVa (va : Nat) : Bool :=
  decide (linuxHighVaThreshold <= va)

def mmapAddressUsesAlias (address length : Nat) (layout : MemoryLayout) (userCeiling : Nat) :
    Bool :=
  match checkedAdd address length with
  | none => false
  | some stop =>
    if userCeiling < stop then false
    else if rangeWithin address length layout.mmapBase layout.mmapSize then false
    else if isHighVa address then true
    else
      let aliasLowBase := linuxSharedFileBase + linuxSharedFileSize
      let stackBase := linuxStackTop - linuxStackSize
      rangeWithin address length aliasLowBase (stackBase - aliasLowBase)

/-- Boot regions that back the arenas rather than a Linux-visible mapping. -/
def bootRegionIsHiddenReservation (map : Nat × Nat) (layout : MemoryLayout) : Bool :=
  decide (map = (layout.mmapBase, saturatingAdd layout.mmapBase layout.mmapSize)) ||
  decide (map = (layout.heapBase, saturatingAdd layout.heapBase layout.heapSize)) ||
  decide (map = (linuxSharedFileBase, saturatingAdd linuxSharedFileBase linuxSharedFileSize)) ||
  decide (map = (linuxPrivateOverlayBase,
    saturatingAdd linuxPrivateOverlayBase linuxPrivateOverlaySize))

def dynamicMappingOverlapsSorted (maps : List (Nat × Nat)) (start len : Nat) : Bool :=
  match checkedAdd start len with
  | none => true
  | some stop =>
    match maps[partitionPoint (fun map => decide (map.2 <= start)) maps]? with
    | some map => decide (map.1 < stop)
    | none => false

/-- Whether a Linux-visible mapping of a host-owned address space meets the
range.  A host-owned address space has no delegated root to ask. -/
def guestVmaOverlapsLocked (mem : MemState) (start len : Nat) : Bool :=
  match checkedAdd start len with
  | none => true
  | some stop =>
    dynamicMappingOverlapsSorted mem.rows.dynamicMaps start len ||
    mem.rows.growdownRanges.any (fun range =>
      decide (range.2.1 < stop) && decide (start < range.2.2)) ||
    (decide (mem.layout.heapBase < mem.arena.brk) && decide (start < mem.arena.brk) &&
      decide (mem.layout.heapBase < stop)) ||
    (mem.rows.addressSpaceRegions.getD []).any (fun map =>
      decide (map.1 < stop) && decide (start < map.2) &&
        !bootRegionIsHiddenReservation map mem.layout)

/-! ## The gap search above the high threshold -/

/-- The occupied ranges above the threshold, unsorted. -/
def occupiedHigh (mem : MemState) : List (Nat × Nat) :=
  let clipLow := fun map : Nat × Nat =>
    if linuxHighVaThreshold < map.2 then some (max map.1 linuxHighVaThreshold, map.2) else none
  mem.rows.dynamicMaps.filterMap clipLow ++
  mem.rows.growdownRanges.filterMap (fun range => clipLow range.2) ++
  ((mem.rows.addressSpaceRegions.getD []).filter
    (fun map => !bootRegionIsHiddenReservation map mem.layout)).filterMap clipLow ++
  [(linuxRosettaVaBase, saturatingAdd linuxRosettaVaBase linuxRosettaWindowSize)]

/-- Merge ranges sorted by start; `last` is the range being grown. -/
def mergeSorted (last : Nat × Nat) : List (Nat × Nat) -> List (Nat × Nat)
  | [] => [last]
  | range :: rest =>
    if range.1 <= last.2 then mergeSorted (last.1, max last.2 range.2) rest
    else last :: mergeSorted range rest

def mergeOccupied (occupied : List (Nat × Nat)) : List (Nat × Nat) :=
  match occupied.insertionSort (fun left right => left.1 <= right.1) with
  | [] => []
  | first :: rest => mergeSorted first rest

/-- Walk the merged ranges upward, trying the gap before each of them and
finally the one after the last. -/
def scanHighGaps (congruence : MmapGrantCongruence) (length top : Nat) :
    Nat -> List (Nat × Nat) -> Option (Nat × Bool)
  | candidate, [] =>
    (congruence.firstAtOrAfter candidate).bind fun start =>
      match checkedAdd start length with
      | some stop => if stop <= top then some (start, false) else none
      | none => none
  | candidate, range :: rest =>
    (congruence.firstAtOrAfter candidate).bind fun start =>
      match checkedAdd start length with
      | some stop =>
        if stop <= range.1 ∧ stop <= top then some (start, false)
        else scanHighGaps congruence length top (max candidate range.2) rest
      | none => scanHighGaps congruence length top (max candidate range.2) rest

def findCanonicalHighVaGap (mem : MemState) (length : Nat) (congruence : MmapGrantCongruence)
    (userCeiling : Nat) : Option (Nat × Bool) :=
  if length = 0 ∨ userCeiling < length then none
  else scanHighGaps congruence length userCeiling linuxHighVaThreshold
    (mergeOccupied (occupiedHigh mem))

/-! ## The four placement paths -/

def MemState.raiseWritableHigh (mem : MemState) (stop : Nat) : MemState :=
  { mem with mmapWritableHigh := max mem.mmapWritableHigh stop }

/-- A `MAP_FIXED` request inside the arena takes its range off the free list,
and parks the range it skips when it ends past the cursor. -/
def HostArena.claimFixed (arena : HostArena) (requested length stop : Nat) : HostArena :=
  let removed := freeRegionsRemoveRange arena.freeRegions requested length
  if arena.mmapNext < stop then
    { arena with
      mmapNext := stop
      freeRegions :=
        if arena.mmapNext < requested then
          freeRegionsInsert removed arena.mmapNext (requested - arena.mmapNext)
        else removed }
  else { arena with freeRegions := removed }

def placeFixed (mem : MemState) (request : MmapRequest) : Option (Nat × Bool) × MemState :=
  if request.requested = 0 ∨ request.requested % linuxPageSize ≠ 0 then (none, mem)
  else if rangeWithin request.requested request.length mem.layout.mmapBase mem.layout.mmapSize then
    match checkedAdd request.requested request.length with
    | some stop =>
      let marked := if request.writable then mem.raiseWritableHigh stop else mem
      (some (request.requested, false),
        { marked with arena := mem.arena.claimFixed request.requested request.length stop })
    | none => (some (request.requested, false), mem)
  else (some (request.requested, false), mem)

/-- A page-aligned hint in an alias window is honoured when no mapping and
not the Rosetta window occupies it. -/
def placeAliasHint (mem : MemState) (request : MmapRequest) :
    Option (Option (Nat × Bool) × MemState) :=
  if request.requested % linuxPageSize = 0 ∧
      mmapAddressUsesAlias request.requested request.length mem.layout request.userCeiling = true ∧
      guestVmaOverlapsLocked mem request.requested request.length = false ∧
      rangesOverlap request.requested request.length linuxRosettaVaBase
        (saturatingAdd linuxRosettaVaBase linuxRosettaWindowSize) = false then
    some (some (request.requested, false), mem)
  else none

/-- The advisory hint: `none` when it is not honoured and the ordinary search
goes on.  An arena hint at or above the cursor moves the cursor to its end. -/
def placeHint (mem : MemState) (request : MmapRequest) :
    Option (Option (Nat × Bool) × MemState) :=
  if request.requested = 0 then none
  else if request.requested % linuxPageSize = 0 ∧
      rangeWithin request.requested request.length mem.layout.mmapBase
        mem.layout.mmapSize = true then
    match checkedAdd request.requested request.length with
    | none => some (none, mem)
    | some stop =>
      if mem.arena.mmapNext <= request.requested then
        let moved := { mem with arena := { mem.arena with mmapNext := stop } }
        let marked := if request.writable then moved.raiseWritableHigh stop else moved
        some (some (request.requested,
          decide (request.requested < mem.mmapWritableHigh)), marked)
      else placeAliasHint mem request
  else placeAliasHint mem request

/-- A congruent fit inside one free entry. -/
structure Fit where
  position : Nat
  regionStart : Nat
  start : Nat
  stop : Nat
  regionEnd : Nat

def fitIn (congruence : MmapGrantCongruence) (length : Nat) (entry : Region × Nat) : Option Fit :=
  (congruence.firstAtOrAfter entry.1.1).bind fun start =>
    (checkedAdd entry.1.1 entry.1.2).bind fun regionEnd =>
      (checkedAdd start length).bind fun stop =>
        if stop <= regionEnd then some ⟨entry.2, entry.1.1, start, stop, regionEnd⟩ else none

def firstFit (congruence : MmapGrantCongruence) (length : Nat) (regions : List Region) :
    Option Fit :=
  regions.zipIdx.findSome? (fitIn congruence length)

/-- Take the fit off the list and put back the slack on both of its sides. -/
def takeFit (regions : List Region) (fit : Fit) : List Region :=
  let removed := regions.eraseIdx fit.position
  let withSlack :=
    if fit.regionStart < fit.start then
      freeRegionsInsert removed fit.regionStart (fit.start - fit.regionStart)
    else removed
  if fit.stop < fit.regionEnd then
    freeRegionsInsert withSlack fit.stop (fit.regionEnd - fit.stop)
  else withSlack

/-- The bump path: the first congruent address at or after the aligned
cursor, with the skipped range parked on the free list. -/
def placeBump (mem : MemState) (request : MmapRequest) :
    Option (Option (Nat × Bool) × MemState) :=
  (alignUp mem.arena.mmapNext linuxPageSize).bind fun cursor =>
    (request.congruence.firstAtOrAfter cursor).bind fun address =>
      if rangeWithin address request.length mem.layout.mmapBase mem.layout.mmapSize then
        (checkedAdd address request.length).map fun stop =>
          let parked :=
            if cursor < address then
              freeRegionsInsert mem.arena.freeRegions cursor (address - cursor)
            else mem.arena.freeRegions
          let moved :=
            { mem with arena := { mem.arena with mmapNext := stop, freeRegions := parked } }
          let marked := if request.writable then moved.raiseWritableHigh stop else moved
          (some (address, decide (address < mem.mmapWritableHigh)), marked)
      else none

/-- The hint-less search: free list, then cursor, then the high addresses. -/
def placeAnywhere (mem : MemState) (request : MmapRequest) : Option (Nat × Bool) × MemState :=
  let high := (findCanonicalHighVaGap mem request.length request.congruence request.userCeiling, mem)
  if request.length <= mem.layout.mmapSize then
    match firstFit request.congruence request.length mem.arena.freeRegions with
    | some fit =>
      (some (fit.start, true),
        { mem with arena := { mem.arena with
            freeRegions := takeFit mem.arena.freeRegions fit } })
    | none => (placeBump mem request).getD high
  else high

def nextMmapAddressInner (mem : MemState) (request : MmapRequest) :
    Option (Nat × Bool) × MemState :=
  if request.fixed then placeFixed mem request
  else (placeHint mem request).getD (placeAnywhere mem request)

/-! ## What a placement call can do -/

variable {address : Nat}

theorem rangeWithin_iff {length base size : Nat} :
    rangeWithin address length base size = true <->
      base <= address ∧ address + length <= base + size ∧
        address + length < wordLimit ∧ base + size < wordLimit := by
  unfold rangeWithin checkedAdd
  by_cases first : address + length < wordLimit <;>
    by_cases second : base + size < wordLimit <;>
    simp [first, second]

/-- Whether a grant is an arena range: it lies inside the arena window. -/
def MemoryLayout.inArena (layout : MemoryLayout) (address length : Nat) : Prop :=
  rangeWithin address length layout.mmapBase layout.mmapSize = true

instance (layout : MemoryLayout) (address length : Nat) :
    Decidable (layout.inArena address length) :=
  inferInstanceAs (Decidable (_ = true))

variable {congruence : MmapGrantCongruence}

theorem MmapGrantCongruence.le_firstAtOrAfter
    {start : Nat} (computed : congruence.firstAtOrAfter start = some address) :
    start <= address := by
  cases congruence with
  | any =>
    cases computed
    exact le_rfl
  | residue cls =>
    have parts := checkedAdd_eq_some_iff.mp computed
    omega

/-- A congruent address after a page-aligned one is page aligned. -/
theorem MmapGrantCongruence.dvd_firstAtOrAfter
    {start : Nat} (aligned : linuxPageSize ∣ start)
    (computed : congruence.firstAtOrAfter start = some address) : linuxPageSize ∣ address := by
  cases congruence with
  | any =>
    cases computed
    exact aligned
  | residue cls =>
    have total := (checkedAdd_eq_some_iff.mp computed).1
    rcases cls.power with ⟨exponent, inWord, power⟩
    rw [<- total]
    apply Nat.dvd_add aligned
    rw [power, Nat.and_two_pow_sub_one_eq_mod, Nat.and_two_pow_sub_one_eq_mod]
    have wordMultiple : 2 ^ exponent ∣ wordLimit :=
      Nat.pow_dvd_pow 2 (Nat.le_of_lt inWord : exponent <= 64)
    unfold wrappingSub
    rw [Nat.mod_mod_of_dvd _ wordMultiple]
    by_cases small : exponent < 12
    · -- The residue is page aligned and below a modulus smaller than a page.
      have modulusSmall : 2 ^ exponent <= 2 ^ 11 :=
        Nat.pow_le_pow_right (by decide) (by omega)
      have residueZero : cls.residue = 0 := by
        have below := cls.below
        rw [power] at below
        apply Nat.eq_zero_of_dvd_of_lt cls.aligned
        unfold linuxPageSize
        omega
      have pageMultiple : 2 ^ exponent ∣ linuxPageSize :=
        Nat.pow_dvd_pow 2 (by omega : exponent <= 12)
      have currentZero : start % 2 ^ exponent = 0 :=
        Nat.mod_eq_zero_of_dvd (pageMultiple.trans aligned)
      rw [residueZero, currentZero, Nat.zero_add, Nat.sub_zero,
        Nat.mod_eq_zero_of_dvd wordMultiple]
      exact Nat.dvd_zero _
    · have pagePower : linuxPageSize ∣ 2 ^ exponent :=
        Nat.pow_dvd_pow 2 (by omega : 12 <= exponent)
      apply (Nat.dvd_mod_iff pagePower).mpr
      exact Nat.dvd_sub (Nat.dvd_add cls.aligned (pagePower.trans wordMultiple))
        ((Nat.dvd_mod_iff pagePower).mpr aligned)

theorem scanHighGaps_spec {length top : Nat}
    {occupied : List (Nat × Nat)} {candidate : Nat} {reused : Bool}
    (found : scanHighGaps congruence length top candidate occupied = some (address, reused)) :
    candidate <= address ∧ reused = false := by
  induction occupied generalizing candidate with
  | nil =>
    rcases Option.bind_eq_some_iff.mp found with ⟨start, congruent, found⟩
    have lower := MmapGrantCongruence.le_firstAtOrAfter congruent
    split at found
    · split at found
      · cases found
        exact ⟨lower, rfl⟩
      · cases found
    · cases found
  | cons range rest ih =>
    rcases Option.bind_eq_some_iff.mp found with ⟨start, congruent, found⟩
    have lower := MmapGrantCongruence.le_firstAtOrAfter congruent
    have later : ∀ {result}, scanHighGaps congruence length top (max candidate range.2) rest =
        some result -> result = (address, reused) -> candidate <= address ∧ reused = false := by
      intro result scanned same
      have parts := ih (scanned.trans (congrArg some same))
      exact ⟨by omega, parts.2⟩
    split at found
    · split at found
      · cases found
        exact ⟨lower, rfl⟩
      · exact later found rfl
    · exact later found rfl

/-- Everything one placement call can do: it answers outside the arena (or
not at all) and changes nothing, or it takes one of the four arena paths. -/
inductive Placed (mem : MemState) (request : MmapRequest) : Option (Nat × Bool) -> MemState -> Prop
  | outside (answer : Option (Nat × Bool))
      (elsewhere : ∀ address reused, answer = some (address, reused) ->
        ¬ mem.layout.inArena address request.length ∧ (request.fixed = false ->
          reused = false ∧ mem.layout.mmapBase + mem.layout.mmapSize <= address)) :
      Placed mem request answer mem
  | atFixed (isFixed : request.fixed = true)
      (aligned : linuxPageSize ∣ request.requested)
      (inside : mem.layout.inArena request.requested request.length) :
      Placed mem request (some (request.requested, false))
        { (if request.writable then mem.raiseWritableHigh (request.requested + request.length)
            else mem) with
          arena := mem.arena.claimFixed request.requested request.length
            (request.requested + request.length) }
  | atHint (notFixed : request.fixed = false) (nonzero : request.requested ≠ 0)
      (aligned : linuxPageSize ∣ request.requested)
      (inside : mem.layout.inArena request.requested request.length)
      (above : mem.arena.mmapNext <= request.requested) :
      Placed mem request
        (some (request.requested, decide (request.requested < mem.mmapWritableHigh)))
        (if request.writable then
          MemState.raiseWritableHigh { mem with arena := { mem.arena with
            mmapNext := request.requested + request.length } } (request.requested + request.length)
        else { mem with arena := { mem.arena with
            mmapNext := request.requested + request.length } })
  | atFit (notFixed : request.fixed = false) (unhinted : placeHint mem request = none)
      (fits : request.length <= mem.layout.mmapSize) (fit : Fit)
      (found : firstFit request.congruence request.length mem.arena.freeRegions = some fit) :
      Placed mem request (some (fit.start, true))
        { mem with arena := { mem.arena with freeRegions := takeFit mem.arena.freeRegions fit } }
  | atCursor (notFixed : request.fixed = false) (cursor address : Nat)
      (rounded : alignUp mem.arena.mmapNext linuxPageSize = some cursor)
      (congruent : request.congruence.firstAtOrAfter cursor = some address)
      (inside : mem.layout.inArena address request.length) :
      Placed mem request (some (address, decide (address < mem.mmapWritableHigh)))
        (if request.writable then
          MemState.raiseWritableHigh { mem with arena := { mem.arena with
            mmapNext := address + request.length
            freeRegions := if cursor < address then
              freeRegionsInsert mem.arena.freeRegions cursor (address - cursor)
              else mem.arena.freeRegions } } (address + request.length)
        else { mem with arena := { mem.arena with
            mmapNext := address + request.length
            freeRegions := if cursor < address then
              freeRegionsInsert mem.arena.freeRegions cursor (address - cursor)
              else mem.arena.freeRegions } })

theorem mmapAddressUsesAlias_above {length userCeiling : Nat} {layout : MemoryLayout}
    (aliased : mmapAddressUsesAlias address length layout userCeiling = true) :
    layout.mmapBase + layout.mmapSize <= address := by
  have below := layout.below_pie
  have windows : linuxPieDefaultBase <= linuxSharedFileBase + linuxSharedFileSize ∧
      linuxPieDefaultBase <= linuxHighVaThreshold := by decide
  unfold mmapAddressUsesAlias at aliased
  split at aliased
  · cases aliased
  split at aliased
  · cases aliased
  split at aliased
  · cases aliased
  split at aliased
  · rename_i high
    have := of_decide_eq_true high
    omega
  · have := (rangeWithin_iff.mp aliased).1
    omega

theorem MemoryLayout.not_inArena_of_above {layout : MemoryLayout} {length : Nat}
    (positive : 0 < length) (above : layout.mmapBase + layout.mmapSize <= address) :
    ¬ layout.inArena address length := by
  intro inside
  have within := rangeWithin_iff.mp inside
  omega

theorem placeFixed_placed (mem : MemState) (request : MmapRequest)
    (isFixed : request.fixed = true) :
    Placed mem request (placeFixed mem request).1 (placeFixed mem request).2 := by
  unfold placeFixed
  split
  · exact .outside none nofun
  rename_i served
  by_cases inside : rangeWithin request.requested request.length mem.layout.mmapBase
      mem.layout.mmapSize = true
  · have within := rangeWithin_iff.mp inside
    rw [if_pos inside, checkedAdd_of_lt within.2.2.1]
    exact .atFixed isFixed (Nat.dvd_of_mod_eq_zero (by tauto)) inside
  rw [if_neg inside]
  refine .outside _ ?_
  intro address reused same
  cases same
  refine ⟨inside, fun notFixed => ?_⟩
  rw [isFixed] at notFixed
  cases notFixed

theorem placeAliasHint_placed {mem : MemState} {request : MmapRequest}
    (positive : 0 < request.length) {answer : Option (Nat × Bool)} {after : MemState}
    (hinted : placeAliasHint mem request = some (answer, after)) :
    Placed mem request answer after := by
  unfold placeAliasHint at hinted
  split at hinted
  · rename_i honoured
    cases hinted
    refine .outside _ ?_
    intro address reused granted
    cases granted
    have above := mmapAddressUsesAlias_above honoured.2.1
    exact ⟨MemoryLayout.not_inArena_of_above positive above, fun _ => ⟨rfl, above⟩⟩
  · cases hinted

theorem placeHint_placed {mem : MemState} {request : MmapRequest}
    (notFixed : request.fixed = false) (positive : 0 < request.length)
    {answer : Option (Nat × Bool)} {after : MemState}
    (hinted : placeHint mem request = some (answer, after)) : Placed mem request answer after := by
  unfold placeHint at hinted
  by_cases zero : request.requested = 0
  · rw [if_pos zero] at hinted
    cases hinted
  rw [if_neg zero] at hinted
  split at hinted
  · rename_i arenaHint
    have within := rangeWithin_iff.mp arenaHint.2
    rw [checkedAdd_of_lt within.2.2.1] at hinted
    by_cases above : mem.arena.mmapNext <= request.requested
    · simp only [if_pos above] at hinted
      cases hinted
      exact .atHint notFixed zero (Nat.dvd_of_mod_eq_zero arenaHint.1) arenaHint.2 above
    · simp only [if_neg above] at hinted
      exact placeAliasHint_placed positive hinted
  · exact placeAliasHint_placed positive hinted

theorem placeAnywhere_placed (mem : MemState) (request : MmapRequest)
    (notFixed : request.fixed = false) (unhinted : placeHint mem request = none)
    (positive : 0 < request.length) :
    Placed mem request (placeAnywhere mem request).1 (placeAnywhere mem request).2 := by
  have high : Placed mem request
      (findCanonicalHighVaGap mem request.length request.congruence request.userCeiling) mem := by
    refine .outside _ ?_
    intro address reused found
    have below := mem.layout.below_pie
    have windows : linuxPieDefaultBase <= linuxHighVaThreshold := by decide
    unfold findCanonicalHighVaGap at found
    split at found
    · cases found
    · have scanned := scanHighGaps_spec found
      have above : mem.layout.mmapBase + mem.layout.mmapSize <= address := by omega
      exact ⟨MemoryLayout.not_inArena_of_above positive above, fun _ => ⟨scanned.2, above⟩⟩
  unfold placeAnywhere
  simp only
  split
  · rename_i fits
    cases found : firstFit request.congruence request.length mem.arena.freeRegions with
    | some fit => exact .atFit notFixed unhinted fits fit found
    | none =>
      simp only
      cases bumped : placeBump mem request with
      | none => exact high
      | some result =>
        rcases Option.bind_eq_some_iff.mp bumped with ⟨cursor, rounded, bumped⟩
        rcases Option.bind_eq_some_iff.mp bumped with ⟨address, congruent, bumped⟩
        split at bumped
        · rename_i inside
          rw [checkedAdd_of_lt (rangeWithin_iff.mp inside).2.2.1] at bumped
          cases bumped
          exact .atCursor notFixed cursor address rounded congruent inside
        · cases bumped
  · exact high

theorem nextMmapAddressInner_placed (mem : MemState) (request : MmapRequest)
    (positive : 0 < request.length) :
    Placed mem request (nextMmapAddressInner mem request).1
      (nextMmapAddressInner mem request).2 := by
  unfold nextMmapAddressInner
  cases fixed : request.fixed with
  | true =>
    rw [if_pos rfl]
    exact placeFixed_placed mem request fixed
  | false =>
    rw [if_neg (by decide)]
    cases hinted : placeHint mem request with
    | none => exact placeAnywhere_placed mem request fixed hinted positive
    | some result => exact placeHint_placed fixed positive hinted

end MmapArena
end Carrick
