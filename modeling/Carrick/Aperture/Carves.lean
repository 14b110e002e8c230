import Carrick.Aperture.Operations

namespace Carrick
namespace Aperture

open Foundation
open Option (bind_eq_some_iff)

/-!
# Carving ranges out of allocations

A carve cuts every allocation it meets into a front and a back that survive and
a middle that is released.  The front loses its padding, the back keeps it, and
when no back survives the padding is released with the middle.  Reserved bytes
are divided among these pieces; none is lost.
-/

namespace SharedAperture

/-- The arithmetic of an overlap: where a range meets an allocation anchored at
`anchor`, and how much of the allocation is left on either side. -/
structure Meets (alloc : SharedAlloc) (anchor start stop : Nat) (overlap : Overlap) : Prop where
  inWords : anchor + alloc.liveLen < wordLimit
  start_eq : overlap.start = max start anchor
  stop_eq : overlap.stop = min stop (anchor + alloc.liveLen)
  nonempty : overlap.start < overlap.stop
  liveLen_eq : overlap.liveLen = overlap.stop - overlap.start
  prefix_eq : overlap.prefixLiveLen = overlap.start - anchor
  offset_eq : overlap.suffixOffset = overlap.stop - anchor
  suffix_eq : overlap.suffixLiveLen = anchor + alloc.liveLen - overlap.stop
  releaseStart_eq : overlap.releaseStart = alloc.guestAddr + overlap.prefixLiveLen
  releaseEnd_eq : overlap.releaseStart + overlap.releaseLen =
    if overlap.suffixLiveLen = 0 then alloc.guestAddr + alloc.len
    else alloc.guestAddr + overlap.suffixOffset

variable {alloc : SharedAlloc} {anchor start stop : Nat} {overlap : Overlap}

theorem overlapWith_some (met : overlapWith alloc anchor start stop = some (some overlap)) :
    Meets alloc anchor start stop overlap := by
  unfold overlapWith at met
  rcases bind_eq_some_iff.mp met with ⟨allocEnd, ending, rest⟩
  rcases checkedAdd_eq_some_iff.mp ending with ⟨ending_eq, inWords⟩
  simp only at rest
  by_cases empty : min stop allocEnd <= max start anchor
  · rw [if_pos empty] at rest
    cases rest
  rw [if_neg empty] at rest
  rcases bind_eq_some_iff.mp rest with ⟨prefixLiveLen, front, rest⟩
  rcases bind_eq_some_iff.mp rest with ⟨liveLen, middle, rest⟩
  rcases bind_eq_some_iff.mp rest with ⟨suffixOffset, offset, rest⟩
  rcases bind_eq_some_iff.mp rest with ⟨suffixLiveLen, back, rest⟩
  rcases bind_eq_some_iff.mp rest with ⟨releaseStart, released, rest⟩
  rcases bind_eq_some_iff.mp rest with ⟨ending, releasedEnd, rest⟩
  rcases bind_eq_some_iff.mp rest with ⟨releaseLen, length, rest⟩
  cases rest
  rw [checkedSub_eq_some_iff] at front middle offset back length
  rw [checkedAdd_eq_some_iff] at released
  refine ⟨by omega, rfl, by rw [ending_eq], by simp only; omega, middle.2.symm, front.2.symm,
    offset.2.symm, ?_, released.1.symm, ?_⟩
  · simp only
    rw [ending_eq]
    exact back.2.symm
  simp only
  unfold releaseEnd at releasedEnd
  split_ifs at releasedEnd ⊢ with whole
  · have total := (checkedAdd_eq_some_iff.mp releasedEnd).1
    omega
  · have total := (checkedAdd_eq_some_iff.mp releasedEnd).1
    omega

theorem overlapWith_none (missed : overlapWith alloc anchor start stop = some none) :
    min stop (anchor + alloc.liveLen) <= max start anchor := by
  unfold overlapWith at missed
  rcases bind_eq_some_iff.mp missed with ⟨allocEnd, ending, rest⟩
  rcases checkedAdd_eq_some_iff.mp ending with ⟨ending_eq, _⟩
  simp only at rest
  split_ifs at rest with empty
  · rw [ending_eq]
    exact empty
  exfalso
  rcases bind_eq_some_iff.mp rest with ⟨_, _, rest⟩
  rcases bind_eq_some_iff.mp rest with ⟨_, _, rest⟩
  rcases bind_eq_some_iff.mp rest with ⟨_, _, rest⟩
  rcases bind_eq_some_iff.mp rest with ⟨_, _, rest⟩
  rcases bind_eq_some_iff.mp rest with ⟨_, _, rest⟩
  rcases bind_eq_some_iff.mp rest with ⟨_, _, rest⟩
  rcases bind_eq_some_iff.mp rest with ⟨_, _, rest⟩
  cases rest

variable {source : Option Nat}

theorem mem_survivingPrefix {piece : SharedAlloc}
    (listed : piece ∈ survivingPrefix alloc overlap source) :
    0 < overlap.prefixLiveLen ∧ piece = ⟨alloc.guestAddr, overlap.prefixLiveLen,
      overlap.prefixLiveLen, alloc.backing, source⟩ := by
  unfold survivingPrefix at listed
  split_ifs at listed with survives
  · exact ⟨Nat.pos_of_ne_zero survives, List.mem_singleton.mp listed⟩
  · cases listed

variable {suffix : List SharedAlloc}

theorem survivingSuffix_shape (computed : survivingSuffix alloc overlap source = some suffix) :
    (overlap.suffixLiveLen = 0 ∧ suffix = []) ∨
      (0 < overlap.suffixLiveLen ∧ overlap.suffixOffset <= alloc.len ∧ ∃ backing,
        alloc.backing.fragmentAt overlap.suffixOffset = some backing ∧
        suffix = [⟨alloc.guestAddr + overlap.suffixOffset, alloc.len - overlap.suffixOffset,
          overlap.suffixLiveLen, backing, source⟩]) := by
  unfold survivingSuffix at computed
  split_ifs at computed with survives
  · rcases bind_eq_some_iff.mp computed with ⟨guestAddr, start, rest⟩
    rcases bind_eq_some_iff.mp rest with ⟨len, length, rest⟩
    rcases bind_eq_some_iff.mp rest with ⟨backing, fragment, rest⟩
    cases rest
    rw [checkedAdd_eq_some_iff] at start
    rw [checkedSub_eq_some_iff] at length
    rw [start.1, length.2]
    exact .inr ⟨Nat.pos_of_ne_zero survives, length.1, backing, fragment, rfl⟩
  · cases computed
    exact .inl ⟨by omega, rfl⟩

theorem mem_survivingSuffix {piece : SharedAlloc}
    (computed : survivingSuffix alloc overlap source = some suffix) (listed : piece ∈ suffix) :
    0 < overlap.suffixLiveLen ∧ overlap.suffixOffset <= alloc.len ∧
      piece.guestAddr = alloc.guestAddr + overlap.suffixOffset ∧
      piece.len = alloc.len - overlap.suffixOffset ∧ piece.liveLen = overlap.suffixLiveLen ∧
      piece.source = source := by
  rcases survivingSuffix_shape computed with ⟨_, shape⟩ | ⟨survives, fits, _, _, shape⟩
  · rw [shape] at listed
    cases listed
  · rw [shape, List.mem_singleton] at listed
    rw [listed]
    exact ⟨survives, fits, rfl, rfl, rfl, rfl⟩

theorem survivingSuffix_eq (computed : survivingSuffix alloc overlap source = some suffix)
    (survives : 0 < overlap.suffixLiveLen) :
    ∃ piece, suffix = [piece] ∧ piece.guestAddr = alloc.guestAddr + overlap.suffixOffset ∧
      piece.len = alloc.len - overlap.suffixOffset := by
  rcases survivingSuffix_shape computed with ⟨nothing, _⟩ | ⟨_, _, _, _, shape⟩
  · omega
  · exact ⟨_, shape, rfl, rfl⟩

/-- What a carve makes of some allocations of the window. -/
structure Divides (low high : Nat) (allocs : List SharedAlloc) (carve : Carve) : Prop where
  kept : ∀ piece ∈ carve.kept, piece.Sound low high
  released : ∀ region ∈ carve.released,
    0 < region.2 ∧ low <= region.1 ∧ region.1 + region.2 <= high
  displaced : ∀ piece ∈ carve.displaced,
    0 < piece.liveLen ∧ low <= piece.guestAddr ∧ piece.guestAddr + piece.liveLen <= high
  covers : ∀ byte, OwnedBy allocs byte ->
    OwnedBy carve.kept byte ∨ Covered carve.released byte

variable {low high : Nat}

theorem Divides.untouched (sound : alloc.Sound low high) :
    Divides low high [alloc] (.untouched alloc) := by
  refine ⟨?_, ?_, ?_, fun _ owned => .inl owned⟩
  · intro piece listed
    rw [List.mem_singleton.mp listed]
    exact sound
  · intro region listed
    cases listed
  · intro piece listed
    cases listed

theorem Divides.append {first second : List SharedAlloc} {one two : Carve}
    (left : Divides low high first one) (right : Divides low high second two) :
    Divides low high (first ++ second) (one.append two) := by
  refine ⟨?_, ?_, ?_, ?_⟩
  · intro piece listed
    rcases List.mem_append.mp listed with early | late
    · exact left.kept piece early
    · exact right.kept piece late
  · intro region listed
    rcases List.mem_append.mp listed with early | late
    · exact left.released region early
    · exact right.released region late
  · intro piece listed
    rcases List.mem_append.mp listed with early | late
    · exact left.displaced piece early
    · exact right.displaced piece late
  intro byte owned
  unfold Carve.append
  simp only [ownedBy_append, covered_append]
  rw [ownedBy_append] at owned
  have early := left.covers byte
  have late := right.covers byte
  tauto

/-- The cut of one allocation, whichever coordinates the range came in. -/
theorem divides_cut (sound : alloc.Sound low high) (met : Meets alloc anchor start stop overlap)
    {sourceAfter : Option Nat}
    (computed : survivingSuffix alloc overlap sourceAfter = some suffix)
    {displaced : List SharedAlloc} {carved : Nat}
    (gone : ∀ piece ∈ displaced, 0 < piece.liveLen ∧ low <= piece.guestAddr ∧
      piece.guestAddr + piece.liveLen <= high) :
    Divides low high [alloc] ⟨survivingPrefix alloc overlap source ++ suffix,
      releasedInterval overlap, displaced, carved⟩ := by
  have shows := sound.shows
  have reserved := sound.reserved
  have low_le := sound.low_le
  have le_high := sound.le_high
  have start_eq := met.start_eq
  have stop_eq := met.stop_eq
  have nonempty := met.nonempty
  have prefix_eq := met.prefix_eq
  have offset_eq := met.offset_eq
  have suffix_eq := met.suffix_eq
  have releaseStart_eq := met.releaseStart_eq
  have releaseEnd_eq := met.releaseEnd_eq
  refine ⟨?_, ?_, gone, ?_⟩
  · intro piece listed
    rcases List.mem_append.mp listed with front | back
    · rcases mem_survivingPrefix front with ⟨survives, same⟩
      rw [same]
      exact ⟨survives, le_rfl, low_le, by simp only; omega⟩
    · rcases mem_survivingSuffix computed back with ⟨survives, _, addr, len, liveLen, _⟩
      exact ⟨by omega, by omega, by omega, by omega⟩
  · intro region listed
    unfold releasedInterval at listed
    split_ifs at listed with nothing
    · rw [List.mem_singleton.mp listed]
      simp only
      split_ifs at releaseEnd_eq with whole
      · omega
      · omega
    · cases listed
  intro byte owned
  rw [ownedBy_cons] at owned
  rcases owned with occupied | impossible
  · unfold SharedAlloc.Occupies at occupied
    simp only [ownedBy_append]
    by_cases early : byte < overlap.releaseStart
    · refine .inl (.inl ?_)
      unfold survivingPrefix
      rw [if_pos (by omega : overlap.prefixLiveLen ≠ 0), ownedBy_cons]
      refine .inl ?_
      unfold SharedAlloc.Occupies
      simp only
      omega
    by_cases inside : byte < overlap.releaseStart + overlap.releaseLen
    · refine .inr ?_
      unfold releasedInterval
      rw [if_pos (by omega : overlap.releaseLen ≠ 0), covered_cons]
      exact .inl ⟨by simp only; omega, by simpa using inside⟩
    split_ifs at releaseEnd_eq with whole
    · omega
    rcases survivingSuffix_eq computed (Nat.pos_of_ne_zero whole) with
      ⟨piece, only, addr, len⟩
    refine .inl (.inr ?_)
    rw [only, ownedBy_cons]
    refine .inl ?_
    unfold SharedAlloc.Occupies
    rw [addr, len]
    omega
  · exact absurd impossible (not_ownedBy_nil byte)

variable {carve : Carve}

/-- What `carveGuestAlloc` can do: leave an overlay slot or an allocation it
misses as it is, or cut. -/
theorem carveGuestAlloc_cases (computed : carveGuestAlloc start stop alloc = some carve) :
    (carve = .untouched alloc ∧ (alloc.source = none ->
      min stop (alloc.guestAddr + alloc.liveLen) <= max start alloc.guestAddr)) ∨
    (alloc.source = none ∧ ∃ overlap suffix backing,
      Meets alloc alloc.guestAddr start stop overlap ∧
      survivingSuffix alloc overlap none = some suffix ∧
      alloc.backing.fragmentAt overlap.prefixLiveLen = some backing ∧
      carve = ⟨survivingPrefix alloc overlap none ++ suffix, releasedInterval overlap,
        [⟨overlap.start, overlap.releaseLen, overlap.liveLen, backing, none⟩], 1⟩) := by
  unfold carveGuestAlloc at computed
  cases source : alloc.source with
  | some tag =>
    simp only [source, Option.some.injEq] at computed
    exact .inl ⟨computed.symm, by simp⟩
  | none =>
    simp only [source] at computed
    cases met : overlapWith alloc alloc.guestAddr start stop with
    | none => simp [met] at computed
    | some found =>
      cases found with
      | none =>
        simp only [met, Option.some.injEq] at computed
        exact .inl ⟨computed.symm, fun _ => overlapWith_none met⟩
      | some overlap =>
        simp only [met] at computed
        rcases bind_eq_some_iff.mp computed with ⟨suffix, suffixed, rest⟩
        rcases bind_eq_some_iff.mp rest with ⟨backing, fragment, rest⟩
        cases rest
        exact .inr ⟨rfl, overlap, suffix, backing, overlapWith_some met, suffixed, fragment, rfl⟩

/-- What `carveSourceAlloc` can do: leave an excluded or ordinary allocation, or
one it misses, as it is, or cut. -/
theorem carveSourceAlloc_cases {exclude : Option Nat}
    (computed : carveSourceAlloc start stop exclude alloc = some carve) :
    (carve = .untouched alloc ∧ (some alloc.guestAddr ≠ exclude -> ∀ allocSource,
      alloc.source = some allocSource ->
        min stop (allocSource + alloc.liveLen) <= max start allocSource)) ∨
    (some alloc.guestAddr ≠ exclude ∧ ∃ allocSource overlap suffix,
      alloc.source = some allocSource ∧ Meets alloc allocSource start stop overlap ∧
      survivingSuffix alloc overlap (some overlap.stop) = some suffix ∧
      carve = ⟨survivingPrefix alloc overlap (some allocSource) ++ suffix,
        releasedInterval overlap, [], 1⟩) := by
  unfold carveSourceAlloc at computed
  split_ifs at computed with excluded
  · exact .inl ⟨(Option.some.inj computed).symm, fun included => absurd excluded included⟩
  cases source : alloc.source with
  | none =>
    simp only [source, Option.some.injEq] at computed
    exact .inl ⟨computed.symm, by simp⟩
  | some allocSource =>
    simp only [source] at computed
    cases met : overlapWith alloc allocSource start stop with
    | none => simp [met] at computed
    | some found =>
      cases found with
      | none =>
        simp only [met, Option.some.injEq] at computed
        refine .inl ⟨computed.symm, fun _ other same => ?_⟩
        cases same
        exact overlapWith_none met
      | some overlap =>
        simp only [met] at computed
        rcases bind_eq_some_iff.mp computed with ⟨suffix, suffixed, rest⟩
        cases rest
        exact .inr ⟨excluded, allocSource, overlap, suffix, rfl, overlapWith_some met,
          suffixed, rfl⟩

theorem carveGuestAlloc_divides (sound : alloc.Sound low high)
    (computed : carveGuestAlloc start stop alloc = some carve) :
    Divides low high [alloc] carve := by
  rcases carveGuestAlloc_cases computed with
    ⟨same, _⟩ | ⟨_, overlap, suffix, backing, met, suffixed, _, cut⟩
  · rw [same]
    exact .untouched sound
  rw [cut]
  refine divides_cut sound met suffixed ?_
  intro piece listed
  rw [List.mem_singleton.mp listed]
  have start_eq := met.start_eq
  have stop_eq := met.stop_eq
  have nonempty := met.nonempty
  have liveLen_eq := met.liveLen_eq
  have reserved := sound.reserved
  have low_le := sound.low_le
  have le_high := sound.le_high
  simp only
  omega

theorem carveSourceAlloc_divides (sound : alloc.Sound low high) {exclude : Option Nat}
    (computed : carveSourceAlloc start stop exclude alloc = some carve) :
    Divides low high [alloc] carve := by
  rcases carveSourceAlloc_cases computed with
    ⟨same, _⟩ | ⟨_, allocSource, overlap, suffix, _, met, suffixed, cut⟩
  · rw [same]
    exact .untouched sound
  · rw [cut]
    refine divides_cut sound met suffixed ?_
    intro piece listed
    cases listed

theorem carveLive_divides {each : SharedAlloc -> Option Carve}
    (one : ∀ alloc carve, alloc.Sound low high -> each alloc = some carve -> Divides low
      high [alloc] carve) {allocs : List SharedAlloc} : ∀ {carve : Carve},
    (∀ alloc ∈ allocs, alloc.Sound low high) ->
      carveLive each allocs = some carve -> Divides low high allocs carve := by
  induction allocs with
  | nil =>
    intro carve _ computed
    cases computed
    refine ⟨?_, ?_, ?_, fun _ owned => .inl owned⟩ <;>
      (intro item listed; cases listed)
  | cons alloc rest ih =>
    intro carve sound computed
    rcases bind_eq_some_iff.mp computed with ⟨first, here, later⟩
    rcases bind_eq_some_iff.mp later with ⟨others, there, joined⟩
    cases joined
    have head := one alloc first (sound alloc (by simp)) here
    have tail := ih (fun other listed => sound other (by simp [listed])) there
    exact head.append tail

/-! ## The carving operations -/

variable {aperture : SharedAperture}

theorem carved_kept (valid : aperture.Valid)
    (divides : Divides aperture.base aperture.windowEnd aperture.live carve) :
    Kept aperture { aperture with
      live := carve.kept
      free := release aperture.free carve.released } := by
  have words := aperture.windowEnd_lt
  have freed := release_spec valid.free (fun region listed =>
    ⟨(divides.released region listed).1,
      Nat.lt_of_le_of_lt (divides.released region listed).2.2 words⟩)
  refine ⟨rfl, rfl, ⟨freed.1, ?_, divides.kept, valid.base_le, valid.next_le⟩,
    le_rfl, ?_⟩
  · intro byte covered
    rcases (freed.2 byte).mp covered with old | ⟨region, listed, inside⟩
    · exact valid.freeInside byte old
    · have bounds := divides.released region listed
      show aperture.base <= byte ∧ byte < aperture.windowEnd
      omega
  intro byte accounted
  unfold Accounted Owned at accounted ⊢
  rw [freed.2 byte]
  rcases accounted with owned | covered
  · have split := divides.covers byte owned
    tauto
  · exact .inr (.inl covered)

theorem carveSourceRange_cases (aperture : SharedAperture) (source len : Nat)
    (exclude : Option Nat) :
    (aperture.carveSourceRange source len exclude).1 = aperture ∨
    ∃ carve, carveLive (carveSourceAlloc source (source + len) exclude) aperture.live = some carve ∧
      (aperture.carveSourceRange source len exclude).1 = { aperture with
        live := carve.kept, free := release aperture.free carve.released } := by
  unfold carveSourceRange
  split_ifs with carvable
  · cases total : checkedAdd source len with
    | none => exact .inl rfl
    | some stop =>
      have stop_eq := (checkedAdd_eq_some_iff.mp total).1
      rw [stop_eq]
      simp only
      cases computed : carveLive (carveSourceAlloc source stop exclude) aperture.live with
      | none => exact .inl rfl
      | some carve => exact .inr ⟨carve, rfl, rfl⟩
  · exact .inl rfl

theorem carveSourceRange_kept (valid : aperture.Valid) (source len : Nat) (exclude : Option Nat) :
    Kept aperture (aperture.carveSourceRange source len exclude).1 := by
  rcases aperture.carveSourceRange_cases source len exclude with same | ⟨carve, computed, after⟩
  · rw [same]
    exact .refl valid
  · rw [after]
    exact carved_kept valid (carveLive_divides
      (fun alloc carve sound here => carveSourceAlloc_divides sound here) valid.live computed)

theorem carveGuestRange_cases (aperture : SharedAperture) (guestAddr len : Nat) :
    (aperture.carveGuestRange guestAddr len = (aperture, none)) ∨
    ∃ carve, carveLive (carveGuestAlloc guestAddr (guestAddr + len)) aperture.live = some carve ∧
      aperture.carveGuestRange guestAddr len = ({ aperture with
        live := carve.kept
        free := release aperture.free carve.released
        identityRestore := release aperture.identityRestore (restoreRanges carve.displaced) },
        some carve.displaced) := by
  unfold carveGuestRange
  split_ifs with carvable
  · cases total : checkedAdd guestAddr len with
    | none => exact .inl rfl
    | some stop =>
      have stop_eq := (checkedAdd_eq_some_iff.mp total).1
      rw [stop_eq]
      simp only
      cases computed : carveLive (carveGuestAlloc guestAddr stop) aperture.live with
      | none => exact .inl rfl
      | some carve => exact .inr ⟨carve, rfl, rfl⟩
  · exact .inl rfl

theorem carveGuestRange_kept (valid : aperture.Valid) (guestAddr len : Nat) :
    Kept aperture (aperture.carveGuestRange guestAddr len).1 := by
  rcases aperture.carveGuestRange_cases guestAddr len with same | ⟨carve, computed, after⟩
  · rw [same]
    exact .refl valid
  · rw [after]
    have divides := carveLive_divides
      (fun alloc carve sound here => carveGuestAlloc_divides sound here) valid.live computed
    exact (carved_kept valid divides).restore _

theorem Kept.push {before after : SharedAperture} (kept : Kept before after)
    (sound : alloc.Sound after.base after.windowEnd) :
    Kept before { after with live := after.live ++ [alloc] } := by
  have valid := kept.valid
  refine ⟨kept.base_eq, kept.size_eq, ⟨valid.free, valid.freeInside, ?_,
    valid.base_le, valid.next_le⟩, kept.next_le, ?_⟩
  · intro other listed
    rcases List.mem_append.mp listed with old | new
    · exact valid.live other old
    · rw [List.mem_singleton.mp new]
      exact sound
  · intro byte accounted
    rcases kept.accounted byte accounted with owned | covered
    · exact .inl ((ownedBy_append _ _ byte).mpr (.inl owned))
    · exact .inr covered

/-- What `reservePrivateRange` can do: nothing, or a carve of the range followed
by the reservation of it. -/
theorem reservePrivateRange_cases (aperture : SharedAperture) (guestAddr len : Nat) :
    (aperture.reservePrivateRange guestAddr len).1 = aperture ∨
    (0 < len ∧ aperture.base <= guestAddr ∧ guestAddr + len <= aperture.windowEnd ∧
      ∃ carve, carveLive (carveGuestAlloc guestAddr (guestAddr + len)) aperture.live = some carve ∧
        (aperture.carveGuestRange guestAddr len).1.live = carve.kept ∧
        (aperture.reservePrivateRange guestAddr len).1 =
          { (aperture.carveGuestRange guestAddr len).1 with
            live := (aperture.carveGuestRange guestAddr len).1.live ++
              [⟨guestAddr, len, len, .privateReservation, none⟩] }) := by
  unfold reservePrivateRange
  cases total : checkedAdd guestAddr len with
  | none => exact .inl rfl
  | some stop =>
    have stop_eq := (checkedAdd_eq_some_iff.mp total).1
    simp only
    split_ifs with bad
    · exact .inl rfl
    simp only [Bool.or_eq_true, decide_eq_true_eq, not_or] at bad
    rcases aperture.carveGuestRange_cases guestAddr len with same | ⟨carve, computed, after⟩
    · rw [same]
      exact .inl rfl
    · rw [after]
      exact .inr ⟨by omega, by omega, by omega, carve, computed, rfl, rfl⟩

theorem reservePrivateRange_kept (valid : aperture.Valid) (guestAddr len : Nat) :
    Kept aperture (aperture.reservePrivateRange guestAddr len).1 := by
  rcases aperture.reservePrivateRange_cases guestAddr len with
    same | ⟨positive, low, high, carve, computed, _, after⟩
  · rw [same]
    exact .refl valid
  rw [after]
  have carved := carveGuestRange_kept valid guestAddr len
  refine carved.push ⟨positive, le_rfl, ?_, ?_⟩
  · rw [carved.base_eq]
    exact low
  · rw [carved.windowEnd_eq]
    exact high

theorem markIdentityRestored_kept (valid : aperture.Valid) (guestAddr len : Nat) :
    Kept aperture (aperture.markIdentityRestored guestAddr len).1 := by
  unfold markIdentityRestored
  cases total : checkedAdd guestAddr len with
  | none => exact .refl valid
  | some stop => exact (Kept.refl valid).restore _

/-! ## The ranges to restore -/

/-- The ranges a guest carve records for restoration lie inside the words. -/
theorem restoreRanges_sound (valid : aperture.Valid)
    (computed : carveLive (carveGuestAlloc start stop) aperture.live = some carve) :
    ∀ region ∈ restoreRanges carve.displaced,
      0 < region.2 ∧ region.1 + region.2 < wordLimit := by
  intro region listed
  have divides := carveLive_divides
    (fun alloc carve sound here => carveGuestAlloc_divides sound here) valid.live computed
  rcases List.mem_map.mp listed with ⟨piece, member, same⟩
  have bounds := divides.displaced piece (List.mem_filter.mp member).1
  rw [<- same]
  exact ⟨bounds.1, Nat.lt_of_le_of_lt bounds.2.2 aperture.windowEnd_lt⟩

theorem carveGuestRange_restore (valid : aperture.Valid)
    (coalesced : Coalesced aperture.identityRestore) (guestAddr len : Nat) :
    Coalesced (aperture.carveGuestRange guestAddr len).1.identityRestore := by
  rcases aperture.carveGuestRange_cases guestAddr len with same | ⟨carve, computed, after⟩
  · rw [same]
    exact coalesced
  · rw [after]
    exact (release_spec coalesced (restoreRanges_sound valid computed)).1

theorem reservePrivateRange_restore (valid : aperture.Valid)
    (coalesced : Coalesced aperture.identityRestore) (guestAddr len : Nat) :
    Coalesced (aperture.reservePrivateRange guestAddr len).1.identityRestore := by
  rcases aperture.reservePrivateRange_cases guestAddr len with
    same | ⟨_, _, _, carve, computed, _, after⟩
  · rw [same]
    exact coalesced
  · rw [after]
    exact carveGuestRange_restore valid coalesced guestAddr len

theorem carveSourceRange_restore (aperture : SharedAperture) (source len : Nat)
    (exclude : Option Nat) :
    (aperture.carveSourceRange source len exclude).1.identityRestore =
      aperture.identityRestore := by
  rcases aperture.carveSourceRange_cases source len exclude with same | ⟨carve, _, after⟩
  · rw [same]
  · rw [after]

theorem freeAt_restore (aperture : SharedAperture) (guestAddr : Nat) :
    (aperture.freeAt guestAddr).1.identityRestore = aperture.identityRestore := by
  rcases aperture.freeAt_cases guestAddr with same | ⟨_, _, _, _, _, after⟩
  · rw [same]
  · rw [after]

theorem grow_restore (aperture : SharedAperture) (guestAddr newLiveLen : Nat) :
    (aperture.grow guestAddr newLiveLen).1.identityRestore = aperture.identityRestore := by
  rcases aperture.grow_cases guestAddr newLiveLen with
    same | ⟨_, _, _, _, _, _, _, _, _, ⟨_, grew⟩ | ⟨_, _, _, grew⟩⟩
  · rw [same]
  · rw [grew]
  · rw [grew]

theorem releaseTail_restore (aperture : SharedAperture) (guestAddr : Nat) :
    (aperture.releaseTail guestAddr).1.identityRestore = aperture.identityRestore := by
  rcases aperture.releaseTail_cases guestAddr with
    same | ⟨alloc, front, back, keepLen, _, _, _, _, after⟩
  · rw [same]
  · rw [after]

theorem shrink_restore (valid : aperture.Valid) (coalesced : Coalesced aperture.identityRestore)
    (guestAddr newLiveLen : Nat) :
    Coalesced (aperture.shrink guestAddr newLiveLen).1.identityRestore := by
  rcases aperture.shrink_cases guestAddr newLiveLen with
    same | ⟨alloc, front, back, found, split, _, _, shrunk, shape, ended⟩
  · rw [same]
    exact coalesced
  have unchanged : (shrunk.releaseTail guestAddr).1.identityRestore = aperture.identityRestore := by
    rw [releaseTail_restore, shape]
  rcases ended with ⟨plain, _⟩ | ⟨less, restored⟩
  · rw [plain, unchanged]
    exact coalesced
  rw [restored]
  have named := (allocAt_split found).1
  have sound := split_sound valid split
  have words := aperture.windowEnd_lt
  have bounds := sound.le_high
  have reserved := sound.reserved
  simp only [unchanged]
  exact freeInsert_coalesced coalesced (by omega) (by omega)

theorem markIdentityRestored_restore (coalesced : Coalesced aperture.identityRestore)
    (guestAddr : Nat) {len : Nat} (positive : 0 < len) :
    Coalesced (aperture.markIdentityRestored guestAddr len).1.identityRestore := by
  unfold markIdentityRestored
  cases total : checkedAdd guestAddr len with
  | none => exact coalesced
  | some stop =>
    have stop_eq := (checkedAdd_eq_some_iff.mp total).1
    exact intervalRemove_coalesced coalesced (by omega)

end SharedAperture

end Aperture
end Carrick
