import Carrick.Aperture.Partitions

namespace Carrick
namespace Aperture

open Foundation

/-!
# Who sees a guest page

An ordinary allocation shows the guest the first `liveLen` bytes of its
reservation at their own addresses.  Allocation keeps away from every
reservation, carves take the carved range out of everything they meet, and
shrinking shows less; so two ordinary allocations never show the same byte,
unless one is grown over a private reservation that was placed in its padding.
-/

namespace SharedAlloc

/-- Two ordinary allocations that show the guest different bytes. -/
def Apart (first second : SharedAlloc) : Prop :=
  first.source = none -> second.source = none ->
    ∀ byte, first.Visible byte -> ¬ second.Visible byte

/-- A piece that shows nothing its allocation did not show. -/
def PieceOf (alloc piece : SharedAlloc) : Prop :=
  piece.source = none -> alloc.source = none ∧ ∀ byte, piece.Visible byte -> alloc.Visible byte

theorem Apart.symm {first second : SharedAlloc} (apart : first.Apart second) :
    second.Apart first :=
  fun ordinary other byte shown both => apart other ordinary byte both shown

theorem Apart.pieces {first second firstPiece secondPiece : SharedAlloc}
    (apart : first.Apart second) (left : first.PieceOf firstPiece)
    (right : second.PieceOf secondPiece) : firstPiece.Apart secondPiece := by
  intro ordinary other byte shown both
  rcases left ordinary with ⟨leftOrdinary, leftInside⟩
  rcases right other with ⟨rightOrdinary, rightInside⟩
  exact apart leftOrdinary rightOrdinary byte (leftInside byte shown) (rightInside byte both)

theorem Sound.occupies {alloc : SharedAlloc} {low high byte : Nat} (sound : alloc.Sound low high)
    (shown : alloc.Visible byte) : alloc.Occupies byte :=
  ⟨shown.1, Nat.lt_of_lt_of_le shown.2 (Nat.add_le_add_left sound.reserved _)⟩

end SharedAlloc

namespace SharedAperture

/-- No byte is shown by two ordinary allocations. -/
def Exclusive (allocs : List SharedAlloc) : Prop := allocs.Pairwise SharedAlloc.Apart

variable {alloc : SharedAlloc}

/-- Replacing one allocation by another that shows, beyond what it showed, only
bytes no other ordinary allocation shows. -/
theorem Exclusive.replace {front back : List SharedAlloc} {changed : SharedAlloc}
    (exclusive : Exclusive (front ++ alloc :: back)) (source : changed.source = alloc.source)
    (shown : alloc.source = none -> ∀ byte, changed.Visible byte -> alloc.Visible byte ∨
      ∀ other ∈ front ++ back, other.source = none -> ¬ other.Visible byte) :
    Exclusive (front ++ changed :: back) := by
  unfold Exclusive at exclusive ⊢
  rw [List.pairwise_append, List.pairwise_cons] at exclusive ⊢
  rcases exclusive with ⟨before, ⟨after, later⟩, across⟩
  have replaced : ∀ other ∈ front ++ back, alloc.Apart other -> changed.Apart other := by
    intro other listed apart ordinary otherOrdinary byte visible both
    rw [source] at ordinary
    rcases shown ordinary byte visible with old | clear
    · exact apart ordinary otherOrdinary byte old both
    · exact clear other listed otherOrdinary both
  refine ⟨before, ⟨?_, later⟩, ?_⟩
  · intro other listed
    exact replaced other (by simp [listed]) (after other listed)
  intro first firstListed second secondListed
  rcases List.mem_cons.mp secondListed with same | inBack
  · rw [same]
    exact (replaced first (by simp [firstListed]) (across first firstListed alloc (by simp)).symm).symm
  · exact across first firstListed second (by simp [inBack])

variable {allocs : List SharedAlloc}

theorem Exclusive.push (exclusive : Exclusive allocs) {added : SharedAlloc}
    (clear : added.source = none -> ∀ other ∈ allocs, other.source = none -> ∀
      byte, added.Visible byte -> ¬ other.Visible byte) :
    Exclusive (allocs ++ [added]) := by
  refine List.pairwise_append.mpr ⟨exclusive, List.pairwise_singleton _ _, ?_⟩
  intro first listed second isAdded
  rw [List.mem_singleton.mp isAdded]
  intro ordinary addedOrdinary byte shown both
  exact clear addedOrdinary first listed ordinary byte both shown

/-! ## Carves -/

/-- The pieces of one carved allocation. -/
structure Pieces (alloc : SharedAlloc) (carve : Carve) : Prop where
  pieces : ∀ piece ∈ carve.kept, alloc.PieceOf piece
  exclusive : Exclusive carve.kept

theorem Parted.pieces {origin : Option Nat} {start stop : Nat} {cut : Carve}
    (parted : Parted origin start stop alloc cut) : Pieces alloc cut := by
  refine ⟨fun piece listed ordinary => ⟨?_, ?_⟩, parted.apart.imp (fun apart _ _ => apart)⟩
  · have shifted := (parted.keeps piece (List.mem_append_left _ listed)).1
    rw [ordinary] at shifted
    exact Option.map_eq_none_iff.mp shifted.symm
  · intro byte shown
    exact ((parted.kept byte).mp ⟨piece, listed, shown⟩).1

theorem carveLive_pieces {each : SharedAlloc -> Option Carve} {carve : Carve}
    (one : ∀ alloc ∈ allocs, ∀ cut, each alloc = some cut -> Pieces alloc cut)
    (computed : carveLive each allocs = some carve) (exclusive : Exclusive allocs) :
    Exclusive carve.kept ∧
      ∀ piece ∈ carve.kept, ∃ alloc ∈ allocs, alloc.PieceOf piece := by
  rcases carveLive_flatMap computed with ⟨cut, here, kept, _⟩
  have parts (alloc) (listed : alloc ∈ allocs) := one alloc listed _ (here alloc listed)
  rw [kept]
  refine ⟨List.pairwise_flatMap.mpr ⟨fun alloc listed => (parts alloc listed).exclusive, ?_⟩, ?_⟩
  · refine exclusive.imp_of_mem ?_
    intro left right leftListed rightListed apart first firstListed second secondListed
    exact apart.pieces ((parts left leftListed).pieces first firstListed)
      ((parts right rightListed).pieces second secondListed)
  · intro piece listed
    rcases List.mem_flatMap.mp listed with ⟨alloc, member, part⟩
    exact ⟨alloc, member, (parts alloc member).pieces piece part⟩

/-- After a guest carve no ordinary allocation shows a byte of the range. -/
theorem carveLive_clear {start stop low high : Nat} {carve : Carve}
    (sound : ∀ alloc ∈ allocs, alloc.Sound low high)
    (computed : carveLive (carveGuestAlloc start stop) allocs = some carve) :
    ∀ piece ∈ carve.kept, piece.source = none ->
      ∀ byte, piece.Visible byte -> ¬ (start <= byte ∧ byte < stop) := by
  rcases carveLive_flatMap computed with ⟨cut, here, kept, _⟩
  rw [kept]
  intro piece listed ordinary byte shown
  rcases List.mem_flatMap.mp listed with ⟨alloc, member, part⟩
  have parted := (carveGuestAlloc_parted (sound alloc member) (here alloc member)).1
  have outside := (parted.kept byte).mp ⟨piece, part, shown⟩
  have plain := (parted.pieces.pieces piece part ordinary).1
  simp only [guestAnchor, plain, if_pos, Taken] at outside
  have low := outside.1.1
  omega

/-! ## The operations -/

variable {aperture : SharedAperture}

theorem alloc_exclusive (valid : aperture.Valid) (exclusive : Exclusive aperture.live)
    (liveLen : Nat) (backing : BackingObject) (source : Option Nat) (avoid : Nat -> Nat -> Bool) :
    Exclusive (aperture.allocSourcedWithReuseAvoiding liveLen backing source avoid).1.live := by
  have pushed : ∀ (addr len : Nat), liveLen <= len ->
      aperture.physicalRangeHasOwner addr len = false ->
      Exclusive (aperture.live ++ [⟨addr, len, liveLen, backing, source⟩]) := by
    intro addr len reserved unowned
    refine exclusive.push ?_
    intro _ other listed _ byte shown both
    have occupied := (valid.live other listed).occupies both
    unfold SharedAlloc.Visible at shown
    simp only at shown
    exact not_owned_of_physicalRange unowned (by omega) (by omega) ⟨other, listed, occupied⟩
  rcases alloc_cases valid liveLen backing source avoid with
    same | ⟨len, _, rounded, ⟨addr, _, reused⟩ | ⟨_, first, parked, _, bumped⟩⟩
  · rw [same]
    exact exclusive
  · rw [reused.live_eq]
    exact pushed addr len (le_of_alignUp rounded) reused.unowned
  rcases bumped.ended with ⟨_, live, _⟩ | ⟨_, live, _, _, unowned⟩
  · rw [live]
    exact exclusive
  · rw [live]
    exact pushed parked len (le_of_alignUp rounded) unowned

theorem reservePrivateRange_exclusive (valid : aperture.Valid)
    (exclusive : Exclusive aperture.live) (guestAddr len : Nat) :
    Exclusive (aperture.reservePrivateRange guestAddr len).1.live := by
  rcases aperture.reservePrivateRange_cases guestAddr len with
    same | ⟨_, _, _, carve, computed, live, after⟩
  · rw [same]
    exact exclusive
  rw [after]
  simp only [live]
  refine (carveLive_pieces (fun alloc listed _ here =>
    (carveGuestAlloc_parted (valid.live alloc listed) here).1.pieces) computed
    exclusive).1.push ?_
  intro _ other listed ordinary byte shown both
  exact carveLive_clear valid.live computed other listed ordinary byte both shown

theorem releaseTail_exclusive (exclusive : Exclusive aperture.live) (guestAddr : Nat) :
    Exclusive (aperture.releaseTail guestAddr).1.live := by
  rcases aperture.releaseTail_cases guestAddr with
    same | ⟨alloc, front, back, keepLen, _, split, _, _, after⟩
  · rw [same]
    exact exclusive
  · rw [after]
    rw [split] at exclusive
    exact exclusive.replace rfl (fun _ _ shown => .inl shown)

theorem shrink_exclusive (exclusive : Exclusive aperture.live) (guestAddr newLiveLen : Nat) :
    Exclusive (aperture.shrink guestAddr newLiveLen).1.live := by
  rcases aperture.shrink_cases guestAddr newLiveLen with
    same | ⟨alloc, front, back, _, split, _, shorter, shrunk, shape, ended⟩
  · rw [same]
    exact exclusive
  have shortened : Exclusive shrunk.live := by
    rw [shape]
    rw [split] at exclusive
    refine exclusive.replace rfl ?_
    intro _ byte shown
    unfold SharedAlloc.Visible at shown ⊢
    simp only at shown
    exact .inl (by omega)
  have released := releaseTail_exclusive shortened guestAddr
  rcases ended with ⟨plain, _⟩ | ⟨_, restored⟩
  · rw [plain]
    exact released
  · rw [restored]
    exact released

theorem freeAt_exclusive (exclusive : Exclusive aperture.live) (guestAddr : Nat) :
    Exclusive (aperture.freeAt guestAddr).1.live := by
  rcases aperture.freeAt_cases guestAddr with same | ⟨alloc, front, back, _, split, after⟩
  · rw [same]
    exact exclusive
  · rw [after]
    rw [split] at exclusive
    exact exclusive.sublist (List.Sublist.append_left (List.sublist_cons_self _ _) _)

/-- The operation is not a growth over a byte of the allocation's own padding
that another ordinary allocation shows. -/
def Unobstructed (aperture : SharedAperture) : Event -> Prop
  | .grow guestAddr newLiveLen => ∀ alloc, aperture.allocAt guestAddr = some alloc ->
      alloc.source = none -> ∀ other ∈ aperture.live, other.source = none ->
        ∀ byte, guestAddr + alloc.liveLen <= byte -> byte < guestAddr + newLiveLen ->
          byte < guestAddr + alloc.len -> ¬ other.Visible byte
  | _ => True

theorem grow_exclusive (valid : aperture.Valid) (exclusive : Exclusive aperture.live)
    {guestAddr newLiveLen : Nat}
    (unobstructed : aperture.Unobstructed (.grow guestAddr newLiveLen)) :
    Exclusive (aperture.grow guestAddr newLiveLen).1.live := by
  rcases aperture.grow_cases guestAddr newLiveLen with
    same | ⟨alloc, front, back, needed, found, named, split, longer, rounded, inside | claimed⟩
  · rw [same]
    exact exclusive
  · rcases inside with ⟨fitting, grew⟩
    have rounds := le_of_alignUp rounded
    rw [grew]
    rw [split] at exclusive
    refine exclusive.replace rfl ?_
    intro ordinary byte shown
    unfold SharedAlloc.Visible at shown
    simp only at shown
    by_cases old : byte < alloc.guestAddr + alloc.liveLen
    · exact .inl ⟨shown.1, old⟩
    refine .inr ?_
    intro other listed otherOrdinary
    refine unobstructed alloc found ordinary other ?_ otherOrdinary byte (by omega) (by omega)
      (by omega)
    rw [split]
    simp only [List.mem_append, List.mem_cons] at listed ⊢
    tauto
  rcases claimed with ⟨more, _, unowned, grew⟩
  have rounds := le_of_alignUp rounded
  rw [grew]
  rw [split] at exclusive
  refine exclusive.replace rfl ?_
  intro ordinary byte shown
  unfold SharedAlloc.Visible at shown
  simp only at shown
  by_cases old : byte < alloc.guestAddr + alloc.liveLen
  · exact .inl ⟨shown.1, old⟩
  refine .inr ?_
  intro other listed otherOrdinary both
  have member : other ∈ aperture.live := by
    rw [split]
    simp only [List.mem_append, List.mem_cons] at listed ⊢
    tauto
  by_cases padding : byte < guestAddr + alloc.len
  · exact unobstructed alloc found ordinary other member otherOrdinary byte (by omega)
      (by omega) padding both
  · have occupied := (valid.live other member).occupies both
    exact not_owned_of_physicalRange unowned (by omega) (by omega) ⟨other, member, occupied⟩

theorem exclusive_step (valid : aperture.Valid) (exclusive : Exclusive aperture.live)
    {event : Event} (unobstructed : aperture.Unobstructed event) :
    Exclusive (aperture.step event).live := by
  cases event with
  | alloc liveLen backing source avoid =>
    exact alloc_exclusive valid exclusive liveLen backing source avoid
  | carveSourceRange source len exclude =>
    unfold step
    rcases aperture.carveSourceRange_cases source len exclude with same | ⟨carve, computed, after⟩
    · simp only [same]
      exact exclusive
    · simp only [after]
      exact (carveLive_pieces (fun alloc listed _ here =>
        (carveSourceAlloc_parted (valid.live alloc listed) here).pieces) computed exclusive).1
  | carveGuestRange guestAddr len =>
    unfold step
    rcases aperture.carveGuestRange_cases guestAddr len with same | ⟨carve, computed, after⟩
    · simp only [same]
      exact exclusive
    · simp only [after]
      exact (carveLive_pieces (fun alloc listed _ here =>
        (carveGuestAlloc_parted (valid.live alloc listed) here).1.pieces) computed exclusive).1
  | reservePrivateRange guestAddr len =>
    exact reservePrivateRange_exclusive valid exclusive guestAddr len
  | shrink guestAddr newLiveLen => exact shrink_exclusive exclusive guestAddr newLiveLen
  | grow guestAddr newLiveLen => exact grow_exclusive valid exclusive unobstructed
  | releaseTail guestAddr => exact releaseTail_exclusive exclusive guestAddr
  | free guestAddr => exact freeAt_exclusive exclusive guestAddr
  | markIdentityRestored guestAddr len =>
    have unchanged : (aperture.markIdentityRestored guestAddr len).1.live = aperture.live := by
      unfold markIdentityRestored
      cases checkedAdd guestAddr len with
      | none => rfl
      | some stop => rfl
    unfold step
    simp only [unchanged]
    exact exclusive

/-- In every run that never grows an allocation over bytes of its padding that
another ordinary allocation shows, the guest intervals of ordinary live
allocations are pairwise disjoint and lie inside the window. -/
theorem guest_bytes_have_one_owner {base size : Nat} (fits : base + size < wordLimit)
    {history : List Event}
    (guarded : Guarded step (withWindow base size fits) Unobstructed history) :
    (after base size fits history).live.Pairwise (fun first second =>
      first.source = none -> second.source = none ->
        first.guestAddr + first.liveLen <= second.guestAddr ∨
          second.guestAddr + second.liveLen <= first.guestAddr) ∧
    ∀ alloc, alloc ∈ (after base size fits history).live -> alloc.source = none ->
      0 < alloc.liveLen ∧ base <= alloc.guestAddr ∧
        alloc.guestAddr + alloc.liveLen <= base + size := by
  have both : (after base size fits history).Valid ∧
      Exclusive (after base size fits history).live := by
    have start : (withWindow base size fits).Valid ∧ Exclusive (withWindow base size fits).live :=
      ⟨withWindow_valid base size fits, List.Pairwise.nil⟩
    refine replay_invariant (fun aperture => aperture.Valid ∧ Exclusive aperture.live) start ?_
      guarded
    intro before event unobstructed held
    exact ⟨(step_kept held.1 event).valid, exclusive_step held.1 held.2 unobstructed⟩
  have window := after_window fits history
  have sound := both.1.live
  refine ⟨?_, ?_⟩
  · refine both.2.imp_of_mem ?_
    intro first second firstListed secondListed apart ordinary otherOrdinary
    have firstShows := (sound first firstListed).shows
    have secondShows := (sound second secondListed).shows
    by_contra overlapping
    refine apart ordinary otherOrdinary (max first.guestAddr second.guestAddr) ?_ ?_
    · unfold SharedAlloc.Visible
      omega
    · unfold SharedAlloc.Visible
      omega
  · intro alloc listed _
    have shows := (sound alloc listed).shows
    have reserved := (sound alloc listed).reserved
    have low := (sound alloc listed).low_le
    have high := (sound alloc listed).le_high
    unfold windowEnd at high
    rw [window.1, window.2] at high
    rw [window.1] at low
    exact ⟨shows, low, by omega⟩

/-- A private reservation beside an allocation that grows past its padding. -/
theorem grown_beside_reservation :
    let history : List Event := [.grow 0 0x3000, .reservePrivateRange 0x8000 0x1000,
      .alloc 0x1000 .sharedAnon none never]
    Guarded step (withWindow 0 0x100000 megabyte_fits) Unobstructed history ∧
      (after 0 0x100000 megabyte_fits history).live.Pairwise (fun first second =>
        first.source = none -> second.source = none ->
          first.guestAddr + first.liveLen <= second.guestAddr ∨
            second.guestAddr + second.liveLen <= first.guestAddr) := by
  intro history
  have guarded : Guarded step (withWindow 0 0x100000 megabyte_fits) Unobstructed history := by
    refine ⟨?_, trivial, trivial, trivial⟩
    intro alloc found _ other listed _ byte low high padding
    have live : (after 0 0x100000 megabyte_fits [.reservePrivateRange 0x8000 0x1000,
        .alloc 0x1000 .sharedAnon none never]).live =
          [⟨0, 0x4000, 0x1000, .sharedAnon, none⟩,
            ⟨0x8000, 0x1000, 0x1000, .privateReservation, none⟩] := by decide +kernel
    have first : (after 0 0x100000 megabyte_fits [.reservePrivateRange 0x8000 0x1000,
        .alloc 0x1000 .sharedAnon none never]).allocAt 0 =
          some ⟨0, 0x4000, 0x1000, .sharedAnon, none⟩ := by decide +kernel
    have same := Option.some.inj (found.symm.trans first)
    have member : other ∈ (after 0 0x100000 megabyte_fits [.reservePrivateRange 0x8000 0x1000,
        .alloc 0x1000 .sharedAnon none never]).live := listed
    rw [live] at member
    rw [same] at low
    simp only at low
    unfold SharedAlloc.Visible
    rcases List.mem_cons.mp member with here | there
    · rw [here]
      simp only
      omega
    · rw [List.mem_singleton.mp there]
      simp only
      omega
  exact ⟨guarded, (guest_bytes_have_one_owner megabyte_fits guarded).1⟩

/-- A private reservation inside the padding of a live allocation, which then
grows within its reservation: both show the same page. -/
theorem grown_over_reservation_shares_a_page :
    ¬ ∀ (base size : Nat) (fits : base + size < wordLimit) (history : List Event),
      (after base size fits history).live.Pairwise (fun first second =>
        first.source = none -> second.source = none ->
          first.guestAddr + first.liveLen <= second.guestAddr ∨
            second.guestAddr + second.liveLen <= first.guestAddr) := by
  intro disjoint
  have pair := disjoint 0 0x100000 megabyte_fits [.grow 0 0x3000,
    .reservePrivateRange 0x2000 0x1000, .alloc 0x1000 .sharedAnon none never]
  revert pair
  decide +kernel

end SharedAperture

end Aperture
end Carrick
