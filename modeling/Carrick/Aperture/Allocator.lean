import Carrick.Aperture.Intervals

namespace Carrick
namespace Aperture

open Foundation

/-!
# The shared aperture's sub-allocator

A window of guest addresses that is mapped once at boot is handed out by a bump
cursor and a free list.  An allocation reserves whole granules, of which the
guest sees `liveLen` bytes; exact carves split reservations at page bounds, and
private overlays reserve guest addresses of the window without owning its bytes.

The state carries the proof that the window ends inside the 64-bit words.  A
window that does not makes `window_end` panic, before any operation changes the
state.  Every operation returns the state it leaves behind next to its answer,
since some change it before they fail.
-/

/-- The mapping granule, 16 KiB. -/
@[irreducible] def granule : Nat := 0x4000

/-- What backs a live allocation: shared anonymous memory, a file at an offset,
or memory private to one address space. -/
inductive BackingObject where
  | sharedAnon
  | sharedFile (hostFd offset : Nat)
  | privateReservation
  | privateAnon
  deriving DecidableEq, Repr

namespace BackingObject

def fragmentAt (backing : BackingObject) (byteOffset : Nat) : Option BackingObject :=
  match backing with
  | .sharedFile hostFd offset =>
    (checkedAdd offset byteOffset).map (fun moved => .sharedFile hostFd moved)
  | .sharedAnon => some .sharedAnon
  | .privateReservation => some .privateReservation
  | .privateAnon => some .privateAnon

def isPrivateReservation : BackingObject -> Bool
  | .privateReservation => true
  | _ => false

end BackingObject

/-- One live allocation: `len` bytes reserved, `liveLen` of them visible to the
guest.  `source` is the address an overlay slot backs. -/
structure SharedAlloc where
  guestAddr : Nat
  len : Nat
  liveLen : Nat
  backing : BackingObject
  source : Option Nat
  deriving DecidableEq, Repr

structure SharedAperture where
  base : Nat
  size : Nat
  next : Nat
  free : List Interval
  identityRestore : List Interval
  live : List SharedAlloc
  fits : base + size < wordLimit

namespace SharedAperture

def withWindow (base size : Nat) (fits : base + size < wordLimit) : SharedAperture where
  base := base
  size := size
  next := base
  free := []
  identityRestore := []
  live := []
  fits := fits

def windowEnd (aperture : SharedAperture) : Nat := aperture.base + aperture.size

/-- Whether a physical range meets any live allocation's reservation. -/
def physicalRangeHasOwner (aperture : SharedAperture) (guestAddr len : Nat) : Bool :=
  match checkedAdd guestAddr len with
  | none => true
  | some stop =>
    aperture.live.any fun alloc =>
      match checkedAdd alloc.guestAddr alloc.len with
      | none => true
      | some allocEnd => guestAddr < allocEnd && alloc.guestAddr < stop

/-! ## Allocation -/

/-- The inner loop over the aligned candidates of one free range.  A candidate
that fits leaves a granule less to try, so the fuel given below is enough. -/
def firstCandidate (aperture : SharedAperture) (len : Nat) (avoid : Nat -> Nat -> Bool)
    (rangeEnd : Nat) : Nat -> Nat -> Option (Option Nat)
  | 0, _ => some none
  | fuel + 1, candidate =>
    match checkedAdd candidate len with
    | none => some none
    | some stop =>
      if stop <= rangeEnd then
        if !aperture.physicalRangeHasOwner candidate len && !avoid candidate len then
          some (some candidate)
        else
          match checkedAdd candidate granule with
          | none => none
          | some following => firstCandidate aperture len avoid rangeEnd fuel following
      else some none

/-- The first free range with a candidate for a rounded length, with its
position; the outer `none` is a failed computation. -/
def findReusable (aperture : SharedAperture) (len : Nat) (avoid : Nat -> Nat -> Bool) :
    Nat -> List Interval -> Option (Option (Nat × Nat))
  | _, [] => some none
  | position, (start, rangeLen) :: rest =>
    match checkedAdd start rangeLen with
    | none => none
    | some rangeEnd =>
      match alignUp start granule with
      | none => none
      | some candidate =>
        match firstCandidate aperture len avoid rangeEnd
            ((rangeEnd - candidate) / granule + 1) candidate with
        | none => none
        | some (some found) => some (some (position, found))
        | some none => findReusable aperture len avoid (position + 1) rest

/-- Takes the candidate out of its free range and puts back what is left of it
on both sides. -/
def reuse (aperture : SharedAperture) (position : Nat) (alloc : SharedAlloc) :
    SharedAperture × Option (Nat × Bool) :=
  match aperture.free[position]? with
  | none => (aperture, none)
  | some (start, rangeLen) =>
    let addr := alloc.guestAddr
    let removed := aperture.free.eraseIdx position
    match checkedAdd start rangeLen, checkedAdd addr alloc.len with
    | some rangeEnd, some allocEnd =>
      let below := if start < addr then freeInsert removed start (addr - start) else removed
      let above := if allocEnd < rangeEnd then freeInsert below allocEnd (rangeEnd - allocEnd)
        else below
      ({ aperture with free := above, live := aperture.live ++ [alloc] }, some (addr, true))
    | _, _ => ({ aperture with free := removed }, none)

/-- The bump loop: an excluded range goes to the free list and the cursor moves
on.  Every turn takes at least a granule of the window. -/
def bump (len : Nat) (avoid : Nat -> Nat -> Bool) (place : Nat -> SharedAlloc) :
    Nat -> Nat -> SharedAperture -> SharedAperture × Option (Nat × Bool)
  | 0, _, aperture => (aperture, none)
  | fuel + 1, addr, aperture =>
    match checkedAdd addr len with
    | none => (aperture, none)
    | some stop =>
      if aperture.windowEnd < stop then (aperture, none)
      else
        let moved := { aperture with next := stop }
        if moved.physicalRangeHasOwner addr len || avoid addr len then
          let parked := { moved with free := freeInsert moved.free addr len }
          match alignUp parked.next granule with
          | none => (parked, none)
          | some following => bump len avoid place fuel following parked
        else ({ moved with live := moved.live ++ [place addr] }, some (addr, false))

def allocSourcedWithReuseAvoiding (aperture : SharedAperture) (liveLen : Nat)
    (backing : BackingObject) (source : Option Nat) (avoid : Nat -> Nat -> Bool) :
    SharedAperture × Option (Nat × Bool) :=
  if liveLen = 0 then (aperture, none)
  else
    match alignUp liveLen granule with
    | none => (aperture, none)
    | some len =>
      let place := fun addr => (⟨addr, len, liveLen, backing, source⟩ : SharedAlloc)
      match aperture.findReusable len avoid 0 aperture.free with
      | none => (aperture, none)
      | some (some (position, addr)) => aperture.reuse position (place addr)
      | some none =>
        match alignUp aperture.next granule with
        | none => (aperture, none)
        | some addr =>
          bump len avoid place ((aperture.windowEnd - addr) / granule + 1) addr aperture

/-! ## Carving -/

/-- Where an allocation and a carved range meet.  The range is given in the
coordinates of `anchor`, the allocation's own start or the start of the source
interval it backs. -/
structure Overlap where
  start : Nat
  stop : Nat
  liveLen : Nat
  prefixLiveLen : Nat
  suffixOffset : Nat
  suffixLiveLen : Nat
  releaseStart : Nat
  releaseLen : Nat

/-- Where the released middle ends: padding goes with it when no back survives. -/
def releaseEnd (alloc : SharedAlloc) (suffixLiveLen suffixOffset : Nat) : Option Nat :=
  if suffixLiveLen = 0 then checkedAdd alloc.guestAddr alloc.len
  else checkedAdd alloc.guestAddr suffixOffset

def overlapWith (alloc : SharedAlloc) (anchor start stop : Nat) : Option (Option Overlap) := do
  let allocEnd ← checkedAdd anchor alloc.liveLen
  let overlapStart := max start anchor
  let overlapEnd := min stop allocEnd
  if overlapEnd <= overlapStart then some none
  else do
    let prefixLiveLen ← checkedSub overlapStart anchor
    let liveLen ← checkedSub overlapEnd overlapStart
    let suffixOffset ← checkedSub overlapEnd anchor
    let suffixLiveLen ← checkedSub allocEnd overlapEnd
    let releaseStart ← checkedAdd alloc.guestAddr prefixLiveLen
    let ending ← releaseEnd alloc suffixLiveLen suffixOffset
    let releaseLen ← checkedSub ending releaseStart
    some (some ⟨overlapStart, overlapEnd, liveLen, prefixLiveLen, suffixOffset, suffixLiveLen,
      releaseStart, releaseLen⟩)

/-- The surviving front of a carved allocation. -/
def survivingPrefix (alloc : SharedAlloc) (overlap : Overlap) (source : Option Nat) :
    List SharedAlloc :=
  if overlap.prefixLiveLen ≠ 0 then
    [⟨alloc.guestAddr, overlap.prefixLiveLen, overlap.prefixLiveLen, alloc.backing, source⟩]
  else []

/-- The surviving back of a carved allocation, with the rest of its padding. -/
def survivingSuffix (alloc : SharedAlloc) (overlap : Overlap) (source : Option Nat) :
    Option (List SharedAlloc) :=
  if overlap.suffixLiveLen ≠ 0 then do
    let guestAddr ← checkedAdd alloc.guestAddr overlap.suffixOffset
    let len ← checkedSub alloc.len overlap.suffixOffset
    let backing ← alloc.backing.fragmentAt overlap.suffixOffset
    some [⟨guestAddr, len, overlap.suffixLiveLen, backing, source⟩]
  else some []

/-- What a carve makes of live allocations: the pieces that stay, the extents
that go back to the free list, and the pieces that were cut out. -/
structure Carve where
  kept : List SharedAlloc
  released : List Interval
  displaced : List SharedAlloc
  carved : Nat

def Carve.untouched (alloc : SharedAlloc) : Carve := ⟨[alloc], [], [], 0⟩

def Carve.append (first second : Carve) : Carve where
  kept := first.kept ++ second.kept
  released := first.released ++ second.released
  displaced := first.displaced ++ second.displaced
  carved := first.carved + second.carved

def releasedInterval (overlap : Overlap) : List Interval :=
  if overlap.releaseLen ≠ 0 then [(overlap.releaseStart, overlap.releaseLen)] else []

def carveGuestAlloc (start stop : Nat) (alloc : SharedAlloc) : Option Carve :=
  match alloc.source with
  | some _ => some (.untouched alloc)
  | none =>
    match overlapWith alloc alloc.guestAddr start stop with
    | none => none
    | some none => some (.untouched alloc)
    | some (some overlap) => do
        let suffix ← survivingSuffix alloc overlap none
        let backing ← alloc.backing.fragmentAt overlap.prefixLiveLen
        some ⟨survivingPrefix alloc overlap none ++ suffix, releasedInterval overlap,
          [⟨overlap.start, overlap.releaseLen, overlap.liveLen, backing, none⟩], 1⟩

def carveSourceAlloc (start stop : Nat) (excludeGuestAddr : Option Nat) (alloc : SharedAlloc) :
    Option Carve :=
  if some alloc.guestAddr = excludeGuestAddr then some (.untouched alloc)
  else
    match alloc.source with
    | none => some (.untouched alloc)
    | some allocSource =>
      match overlapWith alloc allocSource start stop with
      | none => none
      | some none => some (.untouched alloc)
      | some (some overlap) => do
          let suffix ← survivingSuffix alloc overlap (some overlap.stop)
          some ⟨survivingPrefix alloc overlap (some allocSource) ++ suffix,
            releasedInterval overlap, [], 1⟩

/-- The loop over the live allocations; a failed computation fails the carve. -/
def carveLive (carve : SharedAlloc -> Option Carve) : List SharedAlloc -> Option Carve
  | [] => some ⟨[], [], [], 0⟩
  | alloc :: rest => do
      let one ← carve alloc
      let others ← carveLive carve rest
      some (one.append others)

/-- Returns ranges to the free list, one after the other. -/
def release (free : List Interval) (released : List Interval) : List Interval :=
  released.foldl (fun regions region => freeInsert regions region.1 region.2) free

def sourceRangeIsCarvable (aperture : SharedAperture) (source len : Nat)
    (excludeGuestAddr : Option Nat) : Bool :=
  match checkedAdd source len with
  | none => false
  | some stop =>
    aperture.live.all fun alloc =>
      if some alloc.guestAddr = excludeGuestAddr then true
      else
        match alloc.source with
        | none => true
        | some allocSource =>
          match checkedAdd allocSource alloc.liveLen with
          | none => false
          | some allocEnd =>
            min stop allocEnd <= max source allocSource ||
              ((checkedSub (max source allocSource) allocSource).isSome &&
                (checkedSub (min stop allocEnd) allocSource).isSome)

def carveSourceRange (aperture : SharedAperture) (source len : Nat)
    (excludeGuestAddr : Option Nat) : SharedAperture × Option Nat :=
  if aperture.sourceRangeIsCarvable source len excludeGuestAddr then
    match checkedAdd source len with
    | none => (aperture, none)
    | some stop =>
      match carveLive (carveSourceAlloc source stop excludeGuestAddr) aperture.live with
      | none => (aperture, none)
      | some carve =>
        ({ aperture with live := carve.kept, free := release aperture.free carve.released },
          some carve.carved)
  else (aperture, none)

def guestRangeIsCarvable (aperture : SharedAperture) (guestAddr len : Nat) : Bool :=
  match checkedAdd guestAddr len with
  | none => false
  | some stop =>
    len ≠ 0 && aperture.live.all fun alloc =>
      match alloc.source with
      | some _ => true
      | none =>
        match checkedAdd alloc.guestAddr alloc.liveLen with
        | none => false
        | some allocEnd =>
          min stop allocEnd <= max guestAddr alloc.guestAddr ||
            ((checkedSub (max guestAddr alloc.guestAddr) alloc.guestAddr).isSome &&
              (checkedSub (min stop allocEnd) alloc.guestAddr).isSome)

/-- The guest ranges of displaced private reservations. -/
def restoreRanges (displaced : List SharedAlloc) : List Interval :=
  (displaced.filter (fun alloc => alloc.backing.isPrivateReservation)).map
    (fun alloc => (alloc.guestAddr, alloc.liveLen))

def carveGuestRange (aperture : SharedAperture) (guestAddr len : Nat) :
    SharedAperture × Option (List SharedAlloc) :=
  if aperture.guestRangeIsCarvable guestAddr len then
    match checkedAdd guestAddr len with
    | none => (aperture, none)
    | some stop =>
      match carveLive (carveGuestAlloc guestAddr stop) aperture.live with
      | none => (aperture, none)
      | some carve =>
        ({ aperture with
            live := carve.kept
            free := release aperture.free carve.released
            identityRestore :=
              release aperture.identityRestore (restoreRanges carve.displaced) },
          some carve.displaced)
  else (aperture, none)

/-- The reservation is recorded after the carve has returned its bytes to the
free list; allocation consults the live allocations as well. -/
def reservePrivateRange (aperture : SharedAperture) (guestAddr len : Nat) :
    SharedAperture × Option (List SharedAlloc) :=
  match checkedAdd guestAddr len with
  | none => (aperture, none)
  | some stop =>
    if len = 0 || guestAddr < aperture.base || aperture.windowEnd < stop then (aperture, none)
    else
      match aperture.carveGuestRange guestAddr len with
      | (after, none) => (after, none)
      | (after, some displaced) =>
        ({ after with
            live := after.live ++ [⟨guestAddr, len, len, .privateReservation, none⟩] },
          some displaced)

/-! ## Resizing and freeing -/

/-- Changes the first allocation that starts at `guestAddr`. -/
def updateAt (guestAddr : Nat) (change : SharedAlloc -> SharedAlloc) :
    List SharedAlloc -> List SharedAlloc
  | [] => []
  | alloc :: rest =>
    if alloc.guestAddr = guestAddr then change alloc :: rest
    else alloc :: updateAt guestAddr change rest

def allocAt (aperture : SharedAperture) (guestAddr : Nat) : Option SharedAlloc :=
  aperture.live.find? (fun alloc => alloc.guestAddr = guestAddr)

def releaseTail (aperture : SharedAperture) (guestAddr : Nat) : SharedAperture × Option Unit :=
  match aperture.allocAt guestAddr with
  | none => (aperture, none)
  | some alloc =>
    match alignUp alloc.liveLen granule with
    | none => (aperture, none)
    | some keepLen =>
      if alloc.len <= keepLen then (aperture, some ())
      else
        match checkedAdd alloc.guestAddr keepLen with
        | none => (aperture, none)
        | some releaseStart =>
          ({ aperture with
              live := updateAt guestAddr (fun found => { found with len := keepLen })
                aperture.live
              free := freeInsert aperture.free releaseStart (alloc.len - keepLen) },
            some ())

def shrink (aperture : SharedAperture) (guestAddr newLiveLen : Nat) :
    SharedAperture × Option Unit :=
  if newLiveLen = 0 then (aperture, none)
  else
    match aperture.allocAt guestAddr with
    | none => (aperture, none)
    | some alloc =>
      if alloc.liveLen < newLiveLen then (aperture, none)
      else
        let shrunk := { aperture with
          live := updateAt guestAddr (fun found => { found with liveLen := newLiveLen })
            aperture.live }
        match shrunk.releaseTail guestAddr with
        | (after, none) => (after, none)
        | (after, some ()) =>
          if alloc.backing.isPrivateReservation && newLiveLen < alloc.liveLen then
            match checkedAdd guestAddr newLiveLen with
            | none => (after, none)
            | some restoreStart =>
              ({ after with
                  identityRestore := freeInsert after.identityRestore restoreStart
                    (alloc.liveLen - newLiveLen) }, some ())
          else (after, some ())

/-- The part of `grow` that takes whole granules above the reservation: from
the free list, from above the cursor, or from both. -/
def claim (aperture : SharedAperture) (guestAddr newLiveLen needed claimStart claimLen : Nat) :
    SharedAperture × Option (Nat × Nat) :=
  match checkedAdd claimStart claimLen with
  | none => (aperture, none)
  | some claimEnd =>
    if aperture.windowEnd < claimEnd then (aperture, none)
    else if aperture.physicalRangeHasOwner claimStart claimLen then (aperture, none)
    else
      ({ aperture with
          free := intervalRemove aperture.free claimStart claimEnd
          next := if aperture.next < claimEnd then claimEnd else aperture.next
          live := updateAt guestAddr
            (fun found => { found with len := needed, liveLen := newLiveLen }) aperture.live },
        some (claimStart, claimLen))

def grow (aperture : SharedAperture) (guestAddr newLiveLen : Nat) :
    SharedAperture × Option (Nat × Nat) :=
  match aperture.allocAt guestAddr with
  | none => (aperture, none)
  | some alloc =>
    if newLiveLen < alloc.liveLen then (aperture, none)
    else
      match alignUp newLiveLen granule with
      | none => (aperture, none)
      | some needed =>
        if needed <= alloc.len then
          ({ aperture with
              live := updateAt guestAddr (fun found => { found with liveLen := newLiveLen })
                aperture.live },
            (checkedAdd guestAddr alloc.len).map (fun claimStart => (claimStart, 0)))
        else
          match checkedAdd guestAddr alloc.len with
          | none => (aperture, none)
          | some claimStart => aperture.claim guestAddr newLiveLen needed claimStart
              (needed - alloc.len)

def freeAt (aperture : SharedAperture) (guestAddr : Nat) :
    SharedAperture × Option SharedAlloc :=
  match aperture.allocAt guestAddr with
  | none => (aperture, none)
  | some alloc =>
    ({ aperture with
        live := aperture.live.eraseP (fun found => found.guestAddr = guestAddr)
        free := freeInsert aperture.free alloc.guestAddr alloc.len }, some alloc)

def markIdentityRestored (aperture : SharedAperture) (guestAddr len : Nat) :
    SharedAperture × Option Unit :=
  match checkedAdd guestAddr len with
  | none => (aperture, none)
  | some stop =>
    ({ aperture with
        identityRestore := intervalRemove aperture.identityRestore guestAddr stop }, some ())

end SharedAperture

/-! ## The operations as events -/

inductive Event where
  | alloc (len : Nat) (backing : BackingObject) (source : Option Nat)
      (avoid : Nat -> Nat -> Bool)
  | carveSourceRange (source len : Nat) (excludeGuestAddr : Option Nat)
  | carveGuestRange (guestAddr len : Nat)
  | reservePrivateRange (guestAddr len : Nat)
  | shrink (guestAddr newLiveLen : Nat)
  | grow (guestAddr newLiveLen : Nat)
  | releaseTail (guestAddr : Nat)
  | free (guestAddr : Nat)
  | markIdentityRestored (guestAddr len : Nat)

def SharedAperture.step (aperture : SharedAperture) : Event -> SharedAperture
  | .alloc len backing source avoid =>
    (aperture.allocSourcedWithReuseAvoiding len backing source avoid).1
  | .carveSourceRange source len exclude => (aperture.carveSourceRange source len exclude).1
  | .carveGuestRange guestAddr len => (aperture.carveGuestRange guestAddr len).1
  | .reservePrivateRange guestAddr len => (aperture.reservePrivateRange guestAddr len).1
  | .shrink guestAddr newLiveLen => (aperture.shrink guestAddr newLiveLen).1
  | .grow guestAddr newLiveLen => (aperture.grow guestAddr newLiveLen).1
  | .releaseTail guestAddr => (aperture.releaseTail guestAddr).1
  | .free guestAddr => (aperture.freeAt guestAddr).1
  | .markIdentityRestored guestAddr len => (aperture.markIdentityRestored guestAddr len).1

end Aperture
end Carrick
