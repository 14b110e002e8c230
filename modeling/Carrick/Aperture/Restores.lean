import Carrick.Aperture.Partitions

namespace Carrick
namespace Aperture

open Foundation

/-!
# Bytes whose identity translation has to be restored

A private reservation points the guest's translation of its bytes elsewhere.
When it ends, the bytes it gives up are noted, and a range with such a byte is
reported until the backend has restored it.  Carves and shrinks note what they
take; freeing a reservation, or carving it as an overlay slot, does not.
-/

namespace SharedAperture

def rangeNeedsIdentityRestore (aperture : SharedAperture) (guestAddr len : Nat) : Bool :=
  match checkedAdd guestAddr len with
  | none => true
  | some stop =>
    aperture.identityRestore.any fun region =>
      guestAddr < saturatingAdd region.1 region.2 && region.1 < stop

/-- Some private reservation shows the guest the byte. -/
def Reserved (aperture : SharedAperture) (byte : Nat) : Prop :=
  ∃ alloc ∈ aperture.live, alloc.backing = .privateReservation ∧ alloc.Visible byte

/-- The event reports a successful restoration of the byte. -/
def Restores (event : Event) (byte : Nat) : Prop :=
  match event with
  | .markIdentityRestored guestAddr len =>
    guestAddr + len < wordLimit ∧ guestAddr <= byte ∧ byte < guestAddr + len
  | _ => False

/-- A private reservation has given the byte up, and since then it was neither
restored nor reserved again. -/
def Stale (start : SharedAperture) : List Event -> Nat -> Prop
  | [], _ => False
  | event :: earlier, byte => ¬ (replay step start (event :: earlier)).Reserved byte ∧
    ((replay step start earlier).Reserved byte ∨ Stale start earlier byte ∧ ¬ Restores event byte)

/-- The step ends private reservations only where it notes what they give up:
it frees none, cuts none as an overlay slot, and shrinks none to a length that
cannot be rounded to granules. -/
def Noting (aperture : SharedAperture) (event : Event) : Prop :=
  match event with
  | .free guestAddr => ∀ alloc, aperture.allocAt guestAddr = some alloc ->
      alloc.backing ≠ .privateReservation
  | .carveSourceRange source len exclude => ∀ alloc ∈ aperture.live,
      alloc.backing = .privateReservation -> ∀ byte, alloc.Visible byte ->
        ¬ Taken (sourceAnchor exclude alloc) source (source + len) alloc byte
  | .shrink guestAddr newLiveLen => ∀ alloc, aperture.allocAt guestAddr = some alloc ->
      alloc.backing = .privateReservation -> newLiveLen < alloc.liveLen ->
        (alignUp newLiveLen granule).isSome = true
  | _ => True

/-- What a noting step does to the notes: a byte that stops being reserved is
noted, and a note goes only by a restore. -/
structure Noted (event : Event) (before after : SharedAperture) : Prop where
  spaced : Spaced 0 after.identityRestore
  reserved : ∀ byte, before.Reserved byte ->
    after.Reserved byte ∨ Covered after.identityRestore byte
  noted : ∀ byte, Covered before.identityRestore byte ->
    Restores event byte ∨ Covered after.identityRestore byte

section Step

variable {aperture after : SharedAperture} {event : Event}

theorem Noted.of_reserved (spaced : Spaced 0 aperture.identityRestore)
    (same : after.identityRestore = aperture.identityRestore)
    (kept : ∀ byte, aperture.Reserved byte -> after.Reserved byte) :
    Noted event aperture after := by
  refine ⟨same ▸ spaced, fun byte reserved => .inl (kept byte reserved), ?_⟩
  intro byte covered
  rw [same]
  exact .inr covered

theorem reserved_append {live added : List SharedAlloc} (listed : after.live = live ++ added)
    (before : aperture.live = live) {byte : Nat} (reserved : aperture.Reserved byte) :
    after.Reserved byte := by
  rcases reserved with ⟨alloc, member, shown⟩
  exact ⟨alloc, by rw [listed, <- before]; exact List.mem_append_left _ member, shown⟩

theorem reserved_replace {front back : List SharedAlloc} {alloc changed : SharedAlloc}
    (split : aperture.live = front ++ alloc :: back) (listed : after.live = front ++ changed :: back)
    {byte : Nat} (shows : alloc.backing = .privateReservation -> alloc.Visible byte ->
      changed.backing = .privateReservation ∧ changed.Visible byte)
    (reserved : aperture.Reserved byte) : after.Reserved byte := by
  rcases reserved with ⟨other, member, shown⟩
  rw [split, List.mem_append, List.mem_cons] at member
  simp only [Reserved, listed, List.mem_append, List.mem_cons]
  rcases member with early | same | late
  · exact ⟨other, .inl early, shown⟩
  · rw [same] at shown
    exact ⟨changed, .inr (.inl rfl), shows shown.1 shown.2⟩
  · exact ⟨other, .inr (.inr late), shown⟩

theorem releaseTail_reserved (aperture : SharedAperture) (guestAddr : Nat) {byte : Nat}
    (reserved : aperture.Reserved byte) : (aperture.releaseTail guestAddr).1.Reserved byte := by
  rcases aperture.releaseTail_cases guestAddr with
    same | ⟨alloc, front, back, keepLen, _, split, _, _, released⟩
  · rw [same]
    exact reserved
  · rw [released]
    refine reserved_replace split rfl ?_ reserved
    exact fun owned shown => ⟨owned, shown⟩

theorem grow_reserved (aperture : SharedAperture) (guestAddr newLiveLen : Nat) {byte : Nat}
    (reserved : aperture.Reserved byte) :
    (aperture.grow guestAddr newLiveLen).1.Reserved byte := by
  rcases aperture.grow_cases guestAddr newLiveLen with
    same | ⟨alloc, front, back, _, _, _, split, longer, _, ⟨_, grew⟩ | ⟨_, _, _, grew⟩⟩
  · rw [same]
    exact reserved
  all_goals
    rw [grew]
    refine reserved_replace split rfl ?_ reserved
    exact fun owned shown => ⟨owned, shown.1, Nat.lt_of_lt_of_le shown.2 (by simpa using longer)⟩

theorem backingAt_eq_privateReservation {alloc : SharedAlloc} {byte : Nat} :
    alloc.backingAt byte = .privateReservation <-> alloc.backing = .privateReservation := by
  unfold SharedAlloc.backingAt
  cases alloc.backing <;> simp

variable (valid : aperture.Valid) (spaced : Spaced 0 aperture.identityRestore)
include valid spaced

theorem carveGuestRange_noted (guestAddr len : Nat) :
    Noted event aperture (aperture.carveGuestRange guestAddr len).1 := by
  rcases aperture.carveGuestRange_cases guestAddr len with same | ⟨carve, computed, carved⟩
  · rw [same]
    exact .of_reserved spaced rfl (fun _ reserved => reserved)
  have released := release_spaced (Nat.zero_le 1) spaced (restoreRanges_sound valid computed)
  rcases carveLive_flatMap computed with ⟨cut, each, kept, _, displaced⟩
  rw [carved]
  refine ⟨released.1, ?_, fun byte covered => .inr ((released.2 byte).mpr (.inl covered))⟩
  rintro byte ⟨alloc, listed, owned, shown⟩
  rcases carveGuestAlloc_parted (valid.live alloc listed) (each alloc listed) with
    ⟨parted, handed⟩
  -- A piece of the reservation is a private reservation itself.
  have inherits (piece) (member : piece ∈ (cut alloc).kept ++ (cut alloc).displaced)
      (visible : piece.Visible byte) : piece.backing = .privateReservation := by
    apply backingAt_eq_privateReservation.mp
    rw [(parted.keeps piece member).2 byte visible]
    exact backingAt_eq_privateReservation.mpr owned
  by_cases taken : Taken (guestAnchor alloc) guestAddr (guestAddr + len) alloc byte
  · rcases (handed.2 byte).mpr ⟨shown, taken⟩ with ⟨piece, member, visible⟩
    have owner := inherits piece (List.mem_append_right _ member) visible
    refine .inr ((released.2 byte).mpr (.inr ⟨(piece.guestAddr, piece.liveLen), ?_, visible⟩))
    refine List.mem_map.mpr ⟨piece, List.mem_filter.mpr ⟨?_, by rw [owner]; rfl⟩, rfl⟩
    rw [displaced]
    exact List.mem_flatMap.mpr ⟨alloc, listed, member⟩
  · rcases (parted.kept byte).mpr ⟨shown, taken⟩ with ⟨piece, member, visible⟩
    refine .inl ⟨piece, ?_, inherits piece (List.mem_append_left _ member) visible, visible⟩
    rw [show carve.kept = _ from kept]
    exact List.mem_flatMap.mpr ⟨alloc, listed, member⟩

theorem carveSourceRange_noted {source len : Nat} {exclude : Option Nat}
    (noting : aperture.Noting (.carveSourceRange source len exclude)) :
    Noted event aperture (aperture.carveSourceRange source len exclude).1 := by
  refine .of_reserved spaced (carveSourceRange_restore aperture source len exclude) ?_
  rintro byte ⟨alloc, listed, owned, shown⟩
  rcases aperture.carveSourceRange_cases source len exclude with same | ⟨carve, computed, carved⟩
  · rw [same]
    exact ⟨alloc, listed, owned, shown⟩
  rcases carveLive_flatMap computed with ⟨cut, each, kept, _⟩
  have untouched := (carveSourceAlloc_parted (valid.live alloc listed)
    (each alloc listed)).untouched (noting alloc listed owned)
  refine ⟨alloc, ?_, owned, shown⟩
  rw [carved, show carve.kept = _ from kept]
  exact List.mem_flatMap.mpr ⟨alloc, listed, by rw [untouched]; exact List.mem_singleton_self _⟩

theorem reservePrivateRange_noted (guestAddr len : Nat) :
    Noted event aperture (aperture.reservePrivateRange guestAddr len).1 := by
  rcases aperture.reservePrivateRange_cases guestAddr len with
    same | ⟨_, _, _, carve, _, _, reserves⟩
  · rw [same]
    exact .of_reserved spaced rfl (fun _ reserved => reserved)
  · have carved := @carveGuestRange_noted aperture event valid spaced guestAddr len
    rw [reserves]
    refine ⟨carved.spaced, fun byte reserved => ?_, carved.noted⟩
    exact (carved.reserved byte reserved).imp_left (reserved_append rfl rfl)

theorem shrink_noted {guestAddr newLiveLen : Nat}
    (noting : aperture.Noting (.shrink guestAddr newLiveLen)) :
    Noted event aperture (aperture.shrink guestAddr newLiveLen).1 := by
  rcases aperture.shrink_cases guestAddr newLiveLen with
    same | ⟨alloc, front, back, found, split, positive, shorter, shrunk, shape, ended⟩
  · rw [same]
    exact .of_reserved spaced rfl (fun _ reserved => reserved)
  have named := (allocAt_split found).1
  rcases split_sound valid split with ⟨shows, inReserve, _, le_high⟩
  have inWords := aperture.windowEnd_lt
  have notes : (shrunk.releaseTail guestAddr).1.identityRestore = aperture.identityRestore := by
    rw [releaseTail_restore, shape]
  have kept (byte) (short : alloc.backing = .privateReservation -> alloc.Visible byte ->
      byte < guestAddr + newLiveLen) (reserved : aperture.Reserved byte) :
      (shrunk.releaseTail guestAddr).1.Reserved byte := by
    refine releaseTail_reserved shrunk guestAddr (reserved_replace split (by rw [shape]) ?_ reserved)
    intro owned shown
    exact ⟨owned, shown.1, by simpa [named] using short owned shown⟩
  rcases ended with ⟨plain, unnoted⟩ | ⟨less, restored⟩
  · rw [plain]
    refine .of_reserved spaced notes fun byte reserved => kept byte ?_ reserved
    intro owned shown
    by_cases less : newLiveLen < alloc.liveLen
    · have rounds := noting alloc found owned less
      rcases unnoted (by rw [owned]; rfl) less with fails | overflows
      · rw [fails] at rounds
        cases rounds
      · omega
    · have visible := shown.2
      omega
  have inserted := freeInsert_spaced (Nat.zero_le 1) spaced
    (by omega : 0 < alloc.liveLen - newLiveLen)
    (by omega : guestAddr + newLiveLen + (alloc.liveLen - newLiveLen) < wordLimit)
  rw [restored, notes]
  refine ⟨inserted.1, ?_, fun byte covered => .inr ((inserted.2 byte).mpr (.inl covered))⟩
  intro byte reserved
  by_cases given : guestAddr + newLiveLen <= byte ∧ byte < guestAddr + alloc.liveLen
  · exact .inr ((inserted.2 byte).mpr (.inr (by omega)))
  · refine .inl (kept byte ?_ reserved)
    intro _ shown
    have visible := shown.2
    omega

omit valid in
theorem freeAt_noted {guestAddr : Nat} (noting : aperture.Noting (.free guestAddr)) :
    Noted event aperture (aperture.freeAt guestAddr).1 := by
  refine .of_reserved spaced (freeAt_restore aperture guestAddr) ?_
  rintro byte ⟨other, listed, owned, shown⟩
  rcases aperture.freeAt_cases guestAddr with same | ⟨alloc, front, back, found, split, freed⟩
  · rw [same]
    exact ⟨other, listed, owned, shown⟩
  refine ⟨other, ?_, owned, shown⟩
  have differs : other ≠ alloc := fun same => noting alloc found (same ▸ owned)
  rw [split] at listed
  rw [freed]
  simpa [differs] using listed

/-- One step of the allocator, under the condition that it notes what private
reservations give up. -/
theorem step_noted (noting : aperture.Noting event) :
    Noted event aperture (aperture.step event) := by
  cases event with
  | alloc len backing source avoid =>
    refine .of_reserved spaced (alloc_restore valid len backing source avoid) ?_
    intro byte reserved
    rcases alloc_cases valid len backing source avoid with
      same | ⟨_, _, _, ⟨_, _, reused⟩ | ⟨_, _, _, _, bumped⟩⟩
    · rw [step, same]
      exact reserved
    · exact reserved_append reused.live_eq rfl reserved
    · rcases bumped.ended with ⟨_, live, _⟩ | ⟨_, live, _⟩
      · exact reserved_append (live.trans (List.append_nil _).symm) rfl reserved
      · exact reserved_append live rfl reserved
  | carveSourceRange source len exclude => exact carveSourceRange_noted valid spaced noting
  | carveGuestRange guestAddr len => exact carveGuestRange_noted valid spaced guestAddr len
  | reservePrivateRange guestAddr len => exact reservePrivateRange_noted valid spaced guestAddr len
  | shrink guestAddr newLiveLen => exact shrink_noted valid spaced noting
  | grow guestAddr newLiveLen =>
    exact .of_reserved spaced (grow_restore aperture guestAddr newLiveLen)
      (fun _ => grow_reserved aperture guestAddr newLiveLen)
  | releaseTail guestAddr =>
    exact .of_reserved spaced (releaseTail_restore aperture guestAddr)
      (fun _ => releaseTail_reserved aperture guestAddr)
  | free guestAddr => exact freeAt_noted spaced noting
  | markIdentityRestored guestAddr len =>
    simp only [step, markIdentityRestored]
    cases total : checkedAdd guestAddr len with
    | none => exact .of_reserved spaced rfl (fun _ reserved => reserved)
    | some stop =>
      rcases checkedAdd_eq_some_iff.mp total with ⟨stop_eq, small⟩
      refine ⟨intervalRemove_spaced spaced (by omega), fun _ reserved => .inl reserved, ?_⟩
      intro byte covered
      by_cases inside : guestAddr <= byte ∧ byte < stop
      · exact .inl ⟨by omega, by omega, by omega⟩
      · exact .inr ((intervalRemove_covers spaced.inWords guestAddr stop byte).mpr
          ⟨covered, inside⟩)

end Step

/-! ## Whole runs -/

section Window

variable {base size : Nat} (fits : base + size < wordLimit)

theorem stale_noted {history : List Event}
    (noting : Guarded step (withWindow base size fits) Noting history) :
    Spaced 0 (after base size fits history).identityRestore ∧
      ∀ byte, Stale (withWindow base size fits) history byte ->
        Covered (after base size fits history).identityRestore byte := by
  induction history with
  | nil => exact ⟨⟨List.Pairwise.nil, by simp [after, replay, withWindow],
      by simp [after, replay, withWindow]⟩, fun _ stale => stale.elim⟩
  | cons event earlier ih =>
    rcases ih noting.2 with ⟨spaced, noted⟩
    have stepped := step_noted (after_valid fits earlier) spaced noting.1
    refine ⟨stepped.spaced, ?_⟩
    rintro byte ⟨unreserved, given | ⟨stale, unrestored⟩⟩
    · exact (stepped.reserved byte given).resolve_left unreserved
    · exact (stepped.noted byte (noted byte stale)).resolve_left unrestored

/-- In every run whose steps note what private reservations give up, every
range with a stale byte is reported. -/
theorem stale_bytes_are_reported (history : List Event)
    (noting : Guarded step (withWindow base size fits) Noting history) (byte guestAddr len : Nat)
    (stale : Stale (withWindow base size fits) history byte) (low : guestAddr <= byte)
    (high : byte < guestAddr + len) :
    (after base size fits history).rangeNeedsIdentityRestore guestAddr len = true := by
  rcases stale_noted fits noting with ⟨spaced, noted⟩
  rcases noted byte stale with ⟨region, listed, inside⟩
  have small := spaced.inWords region listed
  unfold rangeNeedsIdentityRestore
  cases total : checkedAdd guestAddr len with
  | none => rfl
  | some stop =>
    have stop_eq := (checkedAdd_eq_some_iff.mp total).1
    simp only [List.any_eq_true, Bool.and_eq_true, decide_eq_true_eq]
    exact ⟨region, listed, by rw [saturatingAdd_of_lt small]; omega, by omega⟩

end Window

/-- The second page of a carved reservation is stale, and reported. -/
theorem carved_page_is_reported :
    let history : List Event := [.carveGuestRange 0x1000 0x1000, .reservePrivateRange 0 0x2000]
    Stale (withWindow 0 0x100000 megabyte_fits) history 0x1000 ∧
      (after 0 0x100000 megabyte_fits history).rangeNeedsIdentityRestore 0x1000 0x1000 = true := by
  intro history
  have live : (after 0 0x100000 megabyte_fits history).live =
      [⟨0, 0x1000, 0x1000, .privateReservation, none⟩] := by decide +kernel
  have earlier : (after 0 0x100000 megabyte_fits [.reservePrivateRange 0 0x2000]).live =
      [⟨0, 0x2000, 0x2000, .privateReservation, none⟩] := by decide +kernel
  have stale : Stale (withWindow 0 0x100000 megabyte_fits) history 0x1000 := by
    refine ⟨?_, .inl ⟨⟨0, 0x2000, 0x2000, .privateReservation, none⟩, ?_, rfl, by decide, by decide⟩⟩
    · rintro ⟨alloc, listed, _, shown⟩
      rw [show (replay step _ _).live = _ from live, List.mem_singleton] at listed
      rw [listed] at shown
      exact absurd shown.2 (by decide)
    · rw [show (replay step _ _).live = _ from earlier]
      exact List.mem_singleton_self _
  exact ⟨stale, stale_bytes_are_reported megabyte_fits history ⟨trivial, trivial, trivial⟩ 0x1000
    0x1000 0x1000 stale (by decide) (by decide)⟩

/-- A freed reservation leaves its bytes unreported. -/
theorem freed_reservation_is_not_reported :
    let history : List Event := [.free 0, .reservePrivateRange 0 0x1000]
    Stale (withWindow 0 0x100000 megabyte_fits) history 0 ∧
      (after 0 0x100000 megabyte_fits history).rangeNeedsIdentityRestore 0 0x1000 = false := by
  intro history
  have live : (after 0 0x100000 megabyte_fits history).live = [] := by decide +kernel
  have earlier : (after 0 0x100000 megabyte_fits [.reservePrivateRange 0 0x1000]).live =
      [⟨0, 0x1000, 0x1000, .privateReservation, none⟩] := by decide +kernel
  refine ⟨⟨?_, .inl ⟨⟨0, 0x1000, 0x1000, .privateReservation, none⟩, ?_, rfl, by decide,
    by decide⟩⟩, by decide +kernel⟩
  · rintro ⟨alloc, listed, _⟩
    rw [show (replay step _ _).live = _ from live] at listed
    cases listed
  · rw [show (replay step _ _).live = _ from earlier]
    exact List.mem_singleton_self _

end SharedAperture

end Aperture
end Carrick
