import Carrick.Aperture.Allocations
import Carrick.Aperture.Carves
import Carrick.Foundation.Run

namespace Carrick
namespace Aperture

open Foundation

/-!
# Conservation and reuse

Over any run a byte that was once reserved stays reserved or free as long as the
cursor has not passed it, so a bump allocation is fresh unless the free list
reaches above the cursor.  Below the cursor nothing is lost as long as the
cursor only moves from a granule bound and never jumps over bytes.
-/

namespace SharedAperture

variable {aperture : SharedAperture}

theorem step_kept (valid : aperture.Valid) (event : Event) :
    Kept aperture (aperture.step event) := by
  cases event with
  | alloc len backing source avoid => exact alloc_kept valid len backing source avoid
  | carveSourceRange source len exclude => exact carveSourceRange_kept valid source len exclude
  | carveGuestRange guestAddr len => exact carveGuestRange_kept valid guestAddr len
  | reservePrivateRange guestAddr len => exact reservePrivateRange_kept valid guestAddr len
  | shrink guestAddr newLiveLen => exact shrink_kept valid guestAddr newLiveLen
  | grow guestAddr newLiveLen => exact grow_kept valid guestAddr newLiveLen
  | releaseTail guestAddr => exact releaseTail_kept valid guestAddr
  | free guestAddr => exact freeAt_kept valid guestAddr
  | markIdentityRestored guestAddr len => exact markIdentityRestored_kept valid guestAddr len

/-- The state after a history of operations on a fresh window. -/
def after (base size : Nat) (fits : base + size < wordLimit) (history : List Event) :
    SharedAperture :=
  replay step (withWindow base size fits) history

/-- The byte was reserved to a live allocation at some time of the history. -/
def EverOwned (base size : Nat) (fits : base + size < wordLimit) (history : List Event)
    (byte : Nat) : Prop :=
  Ever step (withWindow base size fits) (fun aperture => aperture.Owned byte) history

section Window

variable {base size : Nat} (fits : base + size < wordLimit)

theorem after_valid (history : List Event) : (after base size fits history).Valid := by
  induction history with
  | nil => exact withWindow_valid base size fits
  | cons event earlier ih => exact (step_kept ih event).valid

theorem after_window (history : List Event) :
    (after base size fits history).base = base ∧ (after base size fits history).size = size := by
  induction history with
  | nil => exact ⟨rfl, rfl⟩
  | cons event earlier ih =>
    have kept := step_kept (after_valid fits earlier) event
    exact ⟨kept.base_eq.trans ih.1, kept.size_eq.trans ih.2⟩

/-! ## Fresh and reused bytes -/

/-- Above the cursor, a byte that was ever reserved still is, or is free. -/
theorem everOwned_accounted (history : List Event) {byte : Nat}
    (owned : EverOwned base size fits history byte)
    (above : (after base size fits history).next <= byte) :
    (after base size fits history).Accounted byte := by
  induction history with
  | nil =>
    have start : Ever step (withWindow base size fits) (fun aperture => aperture.Owned byte) [] :=
      owned
    have now := ever_nil.mp start
    exact Or.inl now
  | cons event earlier ih =>
    have kept := step_kept (after_valid fits earlier) event
    rcases ever_cons.mp owned with now | before
    · exact Or.inl now
    · exact kept.accounted byte
        (ih before (Nat.le_trans kept.next_le above))

/-- In every run, an allocation that is reported as not reused covers no byte
that was ever reserved before, when no free range reaches above the cursor at
that time; and a growth that is reported as `(start, claimed)` reserves nothing
new outside of it. -/
theorem fresh_allocation_was_never_live (history : List Event) :
    (∀ (liveLen addr : Nat) (backing : BackingObject) (source : Option Nat)
        (avoid : Nat -> Nat -> Bool),
      (∀ region, region ∈ (after base size fits history).free ->
        region.1 + region.2 <= (after base size fits history).next) ->
      ((after base size fits history).allocSourcedWithReuseAvoiding liveLen backing source
        avoid).2 = some (addr, false) ->
      ∃ len, alignUp liveLen granule = some len ∧
        ∀ byte, addr <= byte -> byte < addr + len ->
          ¬ EverOwned base size fits history byte) ∧
    (∀ guestAddr newLiveLen start claimed : Nat,
      ((after base size fits history).grow guestAddr newLiveLen).2 = some (start, claimed) ->
      ∃ alloc grown front back, alloc.guestAddr = guestAddr ∧
        (after base size fits history).live = front ++ alloc :: back ∧
        ((after base size fits history).grow guestAddr newLiveLen).1.live =
          front ++ grown :: back ∧
        grown.guestAddr = guestAddr ∧ grown.liveLen = newLiveLen ∧
        ∀ byte, grown.Occupies byte -> ¬ alloc.Occupies byte ->
          start <= byte ∧ byte < start + claimed) := by
  have valid := after_valid fits history
  refine ⟨?_, ?_⟩
  · intro liveLen addr backing source avoid clear granted
    rcases alloc_cases valid liveLen backing source avoid with
      same | ⟨len, shows, rounded, ⟨other, reused, _⟩ | ⟨_, first, parked, aligned, bumped⟩⟩
    · rw [same] at granted
      cases granted
    · rw [reused] at granted
      cases granted
    rcases bumped.ended with ⟨none, _⟩ | ⟨placed, _, _, _, unowned⟩
    · rw [none] at granted
      cases granted
    rw [placed] at granted
    cases granted
    refine ⟨len, rounded, ?_⟩
    intro byte low high owned
    have rounding := le_of_alignUp aligned
    have first_le := bumped.first_le
    have above : (after base size fits history).next <= byte := by omega
    rcases everOwned_accounted fits history owned above with now | ⟨region, listed, _, inside⟩
    · exact not_owned_of_physicalRange unowned low high now
    · have bound := clear region listed
      omega
  · intro guestAddr newLiveLen start claimed granted
    rcases (after base size fits history).grow_cases guestAddr newLiveLen with
      same | ⟨alloc, front, back, needed, _, named, split, longer, rounded, inside | claiming⟩
    · rw [same] at granted
      cases granted
    · rcases inside with ⟨_, grew⟩
      rw [grew]
      refine ⟨alloc, _, front, back, named, split, rfl, named, rfl, ?_⟩
      intro byte occupied free
      exact absurd occupied free
    rcases claiming with ⟨more, _, _, grew⟩
    rw [grew] at granted
    cases granted
    rw [grew]
    refine ⟨alloc, _, front, back, named, split, rfl, named, rfl, ?_⟩
    intro byte occupied free
    unfold SharedAlloc.Occupies at occupied free
    simp only at occupied
    omega

end Window

def never : Nat -> Nat -> Bool := fun _ _ => false

theorem megabyte_fits : 0 + 0x100000 < wordLimit := by decide

/-- After one fresh allocation was freed, a larger one takes the next granules,
which nobody had. -/
theorem second_allocation_is_fresh :
    let history : List Event := [.free 0, .alloc 0x4000 .sharedAnon none never]
    ((after 0 0x100000 megabyte_fits history).allocSourcedWithReuseAvoiding 0x8000 .sharedAnon none
        never).2 = some (0x4000, false) ∧
      ∀ byte, 0x4000 <= byte -> byte < 0x4000 + 0x8000 ->
        ¬ EverOwned 0 0x100000 megabyte_fits history byte := by
  intro history
  have granted : ((after 0 0x100000 megabyte_fits history).allocSourcedWithReuseAvoiding 0x8000
      .sharedAnon none never).2 = some (0x4000, false) := by decide +kernel
  refine ⟨granted, ?_⟩
  have clear : ∀ region ∈ (after 0 0x100000 megabyte_fits history).free,
      region.1 + region.2 <= (after 0 0x100000 megabyte_fits history).next := by decide +kernel
  rcases (fresh_allocation_was_never_live megabyte_fits history).1 0x8000 0x4000 .sharedAnon none
    never clear granted with ⟨len, rounded, fresh⟩
  have length : alignUp 0x8000 granule = some 0x8000 := by decide +kernel
  rw [length] at rounded
  cases rounded
  exact fresh

/-- A private reservation above the cursor leaves its range on the free list.
A smaller allocation is served from there, and after it is freed a larger one
is made by the cursor and reported as fresh over the same bytes. -/
theorem bumped_allocation_over_freed_bytes :
    ¬ ∀ (base size : Nat) (fits : base + size < wordLimit) (history : List Event)
      (liveLen addr len : Nat) (backing : BackingObject),
      ((after base size fits history).allocSourcedWithReuseAvoiding liveLen backing none
        never).2 = some (addr, false) ->
      alignUp liveLen granule = some len ->
      ∀ byte, addr <= byte -> byte < addr + len ->
        ¬ EverOwned base size fits history byte := by
  intro fresh
  refine fresh 0 0x100000 megabyte_fits
    [.free 0x4000, .alloc 0x4000 .sharedAnon none never, .free 0x4000,
      .reservePrivateRange 0x4000 0x4000] 0x8000 0 0x8000 .sharedAnon (by decide +kernel)
    (by decide +kernel) 0x4000 (by decide) (by decide) ?_
  refine ⟨[.alloc 0x4000 .sharedAnon none never, .free 0x4000,
    .reservePrivateRange 0x4000 0x4000], List.suffix_cons _ _, ?_⟩
  refine ⟨⟨0x4000, 0x4000, 0x4000, .sharedAnon, none⟩, ?_, by decide, by decide⟩
  decide +kernel

/-! ## Bytes below the cursor -/

/-- The operation does not move the cursor past bytes that go nowhere: the bump
loop starts at a granule bound, and a growth that needs more than its
reservation starts at or below the cursor.  Marking an empty range as restored
would split an entry of the restore list in two. -/
def Conserving (aperture : SharedAperture) : Event -> Prop
  | .alloc liveLen _ _ avoid => ∀ len, alignUp liveLen granule = some len ->
      aperture.findReusable len avoid 0 aperture.free = some none -> granule ∣ aperture.next
  | .grow guestAddr newLiveLen => ∀ alloc needed, aperture.allocAt guestAddr = some alloc ->
      alignUp newLiveLen granule = some needed -> alloc.len < needed ->
        guestAddr + alloc.len <= aperture.next
  | .markIdentityRestored _ len => 0 < len
  | _ => True

/-- Every byte of the window below the cursor is reserved or free. -/
def Conserved (aperture : SharedAperture) : Prop :=
  ∀ byte, aperture.base <= byte -> byte < aperture.next -> aperture.Accounted byte

theorem Kept.conserved {before after : SharedAperture} (kept : Kept before after)
    (conserved : before.Conserved)
    (passed : ∀ byte, before.next <= byte -> byte < after.next -> after.Accounted byte) :
    after.Conserved := by
  intro byte low high
  rw [kept.base_eq] at low
  by_cases below : byte < before.next
  · exact kept.accounted byte (conserved byte low below)
  · exact passed byte (Nat.le_of_not_lt below) high

theorem Kept.conserved_of_next {before after : SharedAperture} (kept : Kept before after)
    (conserved : before.Conserved) (same : after.next = before.next) : after.Conserved := by
  refine kept.conserved conserved ?_
  intro byte low high
  omega

section SharedAperture

variable (aperture)

include aperture

theorem carveSourceRange_next (source len : Nat) (exclude : Option Nat) :
    (aperture.carveSourceRange source len exclude).1.next = aperture.next := by
  rcases aperture.carveSourceRange_cases source len exclude with same | ⟨carve, _, after⟩
  · rw [same]
  · rw [after]

theorem carveGuestRange_next (guestAddr len : Nat) :
    (aperture.carveGuestRange guestAddr len).1.next = aperture.next := by
  rcases aperture.carveGuestRange_cases guestAddr len with same | ⟨carve, _, after⟩
  · rw [same]
  · rw [after]

theorem reservePrivateRange_next (guestAddr len : Nat) :
    (aperture.reservePrivateRange guestAddr len).1.next = aperture.next := by
  rcases aperture.reservePrivateRange_cases guestAddr len with
    same | ⟨_, _, _, carve, _, _, after⟩
  · rw [same]
  · rw [after]
    exact aperture.carveGuestRange_next guestAddr len

theorem releaseTail_next (guestAddr : Nat) :
    (aperture.releaseTail guestAddr).1.next = aperture.next := by
  rcases aperture.releaseTail_cases guestAddr with
    same | ⟨alloc, front, back, keepLen, _, _, _, _, after⟩
  · rw [same]
  · rw [after]

theorem shrink_next (guestAddr newLiveLen : Nat) :
    (aperture.shrink guestAddr newLiveLen).1.next = aperture.next := by
  rcases aperture.shrink_cases guestAddr newLiveLen with
    same | ⟨alloc, front, back, _, _, _, _, shrunk, shape, ended⟩
  · rw [same]
  have unmoved : (shrunk.releaseTail guestAddr).1.next = aperture.next := by
    rw [releaseTail_next, shape]
  rcases ended with ⟨plain, _⟩ | ⟨_, restored⟩
  · rw [plain, unmoved]
  · rw [restored]
    exact unmoved

theorem freeAt_next (guestAddr : Nat) :
    (aperture.freeAt guestAddr).1.next = aperture.next := by
  rcases aperture.freeAt_cases guestAddr with same | ⟨alloc, front, back, _, _, after⟩
  · rw [same]
  · rw [after]

theorem markIdentityRestored_next (guestAddr len : Nat) :
    (aperture.markIdentityRestored guestAddr len).1.next = aperture.next := by
  unfold markIdentityRestored
  cases checkedAdd guestAddr len with
  | none => rfl
  | some stop => rfl

end SharedAperture

theorem alloc_conserved (valid : aperture.Valid)
    (conserved : aperture.Conserved) {liveLen : Nat} {backing : BackingObject}
    {source : Option Nat} {avoid : Nat -> Nat -> Bool}
    (aligned : ∀ len, alignUp liveLen granule = some len ->
      aperture.findReusable len avoid 0 aperture.free = some none -> granule ∣ aperture.next) :
    (aperture.allocSourcedWithReuseAvoiding liveLen backing source avoid).1.Conserved := by
  have kept := alloc_kept valid liveLen backing source avoid
  rcases alloc_cases valid liveLen backing source avoid with
    same | ⟨len, shows, rounded, ⟨addr, _, reused⟩ | ⟨missed, first, parked, cursor, bumped⟩⟩
  · rw [same]
    exact conserved
  · exact kept.conserved_of_next conserved reused.next_eq
  rw [alignUp_of_dvd (aligned len rounded missed)] at cursor
  cases cursor
  refine kept.conserved conserved ?_
  intro byte low high
  have covers := bumped.covers byte
  rcases bumped.ended with ⟨_, _, halted⟩ | ⟨_, live, next, _, _⟩
  · refine Or.inr (covers.mpr (Or.inr ?_))
    rcases halted with ⟨_, next⟩ | ⟨next, _⟩
    · omega
    · omega
  by_cases early : byte < parked
  · exact Or.inr (covers.mpr (Or.inr ⟨low, early⟩))
  refine Or.inl ?_
  unfold Owned
  rw [live, ownedBy_append, ownedBy_cons]
  refine Or.inr (Or.inl ?_)
  unfold SharedAlloc.Occupies
  simp only
  omega

/-- A growth that starts at or below the cursor owns all the cursor passes. -/
theorem grow_conserved (valid : aperture.Valid)
    (conserved : aperture.Conserved) {guestAddr newLiveLen : Nat}
    (reaches : ∀ alloc needed, aperture.allocAt guestAddr = some alloc ->
      alignUp newLiveLen granule = some needed -> alloc.len < needed ->
        guestAddr + alloc.len <= aperture.next) :
    (aperture.grow guestAddr newLiveLen).1.Conserved := by
  have kept := grow_kept valid guestAddr newLiveLen
  rcases aperture.grow_cases guestAddr newLiveLen with
    same | ⟨alloc, front, back, needed, found, named, split, longer, rounded, inside | claimed⟩
  · rw [same]
    exact conserved
  · refine kept.conserved_of_next conserved ?_
    rw [inside.2]
  rcases claimed with ⟨more, _, _, grew⟩
  have reached := reaches alloc needed found rounded more
  refine kept.conserved conserved ?_
  intro byte low high
  rw [grew] at high ⊢
  refine Or.inl ?_
  unfold Owned
  simp only [ownedBy_append, ownedBy_cons]
  refine Or.inr (Or.inl ?_)
  simp only at high
  unfold SharedAlloc.Occupies
  simp only
  split_ifs at high with moved
  · omega
  · omega

/-- The three facts a conserving step keeps: a valid aperture, every byte of the
window accounted for, and coalesced notes of what is to be restored. -/
structure Kempt (aperture : SharedAperture) : Prop where
  valid : aperture.Valid
  conserved : aperture.Conserved
  restore : Coalesced aperture.identityRestore

theorem kempt_step (kempt : aperture.Kempt) {event : Event}
    (conserving : aperture.Conserving event) : (aperture.step event).Kempt := by
  have valid := kempt.valid
  have kept := step_kept valid event
  have unchanged : (aperture.step event).identityRestore = aperture.identityRestore ->
      Coalesced (aperture.step event).identityRestore := by
    intro same
    rw [same]
    exact kempt.restore
  have unmoved := kept.conserved_of_next kempt.conserved
  cases event with
  | alloc liveLen backing source avoid =>
    exact ⟨kept.valid, alloc_conserved valid kempt.conserved conserving,
      unchanged (alloc_restore valid liveLen backing source avoid)⟩
  | carveSourceRange source len exclude =>
    exact ⟨kept.valid, unmoved (carveSourceRange_next _ source len exclude),
      unchanged (carveSourceRange_restore _ source len exclude)⟩
  | carveGuestRange guestAddr len =>
    exact ⟨kept.valid, unmoved (carveGuestRange_next _ guestAddr len),
      carveGuestRange_restore valid kempt.restore guestAddr len⟩
  | reservePrivateRange guestAddr len =>
    exact ⟨kept.valid, unmoved (reservePrivateRange_next _ guestAddr len),
      reservePrivateRange_restore valid kempt.restore guestAddr len⟩
  | shrink guestAddr newLiveLen =>
    exact ⟨kept.valid, unmoved (shrink_next _ guestAddr newLiveLen),
      shrink_restore valid kempt.restore guestAddr newLiveLen⟩
  | grow guestAddr newLiveLen =>
    exact ⟨kept.valid, grow_conserved valid kempt.conserved conserving,
      unchanged (grow_restore _ guestAddr newLiveLen)⟩
  | releaseTail guestAddr =>
    exact ⟨kept.valid, unmoved (releaseTail_next _ guestAddr),
      unchanged (releaseTail_restore _ guestAddr)⟩
  | free guestAddr =>
    exact ⟨kept.valid, unmoved (freeAt_next _ guestAddr),
      unchanged (freeAt_restore _ guestAddr)⟩
  | markIdentityRestored guestAddr len =>
    exact ⟨kept.valid, unmoved (markIdentityRestored_next _ guestAddr len),
      markIdentityRestored_restore kempt.restore guestAddr conserving⟩

/-! ## Freeing everything -/

/-- Frees every live allocation, in the order they are listed. -/
def freeAll (aperture : SharedAperture) : SharedAperture :=
  aperture.live.foldl (fun state alloc => (state.freeAt alloc.guestAddr).1) aperture

theorem freeAll_spec {allocs : List SharedAlloc} : ∀ {aperture : SharedAperture},
    aperture.Valid -> aperture.live = allocs ->
      let freed := allocs.foldl (fun state alloc => (state.freeAt alloc.guestAddr).1) aperture
      Kept aperture freed ∧ freed.live = [] ∧ freed.next = aperture.next := by
  induction allocs with
  | nil =>
    intro aperture valid live
    exact ⟨.refl valid, live, rfl⟩
  | cons alloc rest ih =>
    intro aperture valid live
    have found : aperture.allocAt alloc.guestAddr = some alloc := by
      unfold allocAt
      rw [live]
      simp
    have removed : (aperture.freeAt alloc.guestAddr).1.live = rest := by
      unfold freeAt
      rw [found, live]
      simp
    have kept := freeAt_kept valid alloc.guestAddr
    have next := freeAt_next aperture alloc.guestAddr
    rcases ih kept.valid removed with ⟨later, empty, cursor⟩
    exact ⟨kept.trans later, empty, cursor.trans next⟩

/-- With nothing live and everything below the cursor free, a request that fits
below the cursor is granted at the first granule bound of the window. -/
theorem alloc_of_free (valid : aperture.Valid)
    (empty : aperture.live = [])
    (covered : ∀ byte, aperture.base <= byte -> byte < aperture.next ->
      Covered aperture.free byte)
    {first liveLen len : Nat} (aligned : alignUp aperture.base granule = some first)
    (shows : 0 < liveLen) (rounded : alignUp liveLen granule = some len)
    (fitting : first + len <= aperture.next) (backing : BackingObject) (source : Option Nat) :
    (aperture.allocSourcedWithReuseAvoiding liveLen backing source never).2 =
      some (first, true) := by
  have above := le_of_alignUp aligned
  have length := le_of_alignUp rounded
  rcases valid.free.one_region (by omega : aperture.base < aperture.next) covered with
    ⟨region, listed, low, high⟩
  have inWords := valid.free.inWords region listed
  cases free_eq : aperture.free with
  | nil =>
    rw [free_eq] at listed
    cases listed
  | cons head rest =>
    have headFirst := valid.free
    rw [free_eq] at headFirst listed
    rcases Coalesced.cons_iff.mp headFirst with ⟨later, nonempty, _, _⟩
    have inside := valid.freeInside head.1
      ⟨head, by rw [free_eq]; simp, Nat.le_refl _, by omega⟩
    have same : region = head := by
      rcases List.mem_cons.mp listed with here | there
      · exact here
      · have gap := later region there
        omega
    subst same
    have unowned : aperture.physicalRangeHasOwner first len = false := by
      unfold physicalRangeHasOwner
      rw [checkedAdd_of_lt (by omega : first + len < wordLimit), empty]
      rfl
    have start : region.1 = aperture.base := by omega
    have searched : aperture.findReusable len never 0 aperture.free = some (some (0, first)) := by
      rw [free_eq]
      rcases region with ⟨regionStart, regionLen⟩
      simp only at start high inWords
      subst start
      unfold findReusable
      rw [checkedAdd_of_lt inWords]
      simp only [aligned]
      unfold firstCandidate
      rw [checkedAdd_of_lt (by omega : first + len < wordLimit)]
      simp only
      rw [if_pos (by omega)]
      simp [unowned, never]
    have entry : aperture.free[0]? = some region := by
      rw [free_eq]
      rfl
    have reused := reuse_spec valid ⟨first, len, liveLen, backing, source⟩ entry
      (by simp only; omega) (by simp only; omega) unowned
    unfold allocSourcedWithReuseAvoiding
    rw [if_neg (Nat.ne_of_gt shows), rounded]
    simp only [searched]
    exact reused.1

/-- In every run whose operations never move the cursor past bytes that go
nowhere, every byte below the cursor is reserved or free, both interval lists
stay sorted, disjoint and coalesced, and freeing every live allocation makes the
window below the cursor allocatable again. -/
theorem window_below_cursor_is_conserved {base size : Nat} (fits : base + size < wordLimit)
    {history : List Event} (guarded : Guarded step (withWindow base size fits) Conserving history) :
    (∀ byte, base <= byte -> byte < (after base size fits history).next ->
      (after base size fits history).Accounted byte) ∧
    Coalesced (after base size fits history).free ∧
    Coalesced (after base size fits history).identityRestore ∧
    (after base size fits history).freeAll.live = [] ∧
    (∀ byte, base <= byte -> byte < (after base size fits history).next ->
      Covered (after base size fits history).freeAll.free byte) ∧
    (∀ (first liveLen len : Nat) (backing : BackingObject) (source : Option Nat),
      alignUp base granule = some first -> 0 < liveLen -> alignUp liveLen granule = some len ->
      first + len <= (after base size fits history).next ->
      ((after base size fits history).freeAll.allocSourcedWithReuseAvoiding liveLen backing source
        never).2 = some (first, true)) := by
  have kempt : (after base size fits history).Kempt := by
    refine replay_invariant Kempt ?_ (fun _ _ conserving kempt => kempt_step kempt conserving)
      guarded
    refine ⟨withWindow_valid base size fits, ?_, .nil⟩
    intro byte low high
    have empty : (withWindow base size fits).next = (withWindow base size fits).base := rfl
    omega
  have base_eq := (after_window fits history).1
  rcases freeAll_spec kempt.valid rfl with ⟨kept, empty, cursor⟩
  have conserved : ∀ byte, base <= byte -> byte < (after base size fits history).next ->
      (after base size fits history).Accounted byte := by
    intro byte low high
    exact kempt.conserved byte (by rw [base_eq]; exact low) high
  have freed : ∀ byte, base <= byte -> byte < (after base size fits history).next ->
      Covered (after base size fits history).freeAll.free byte := by
    intro byte low high
    rcases kept.accounted byte (conserved byte low high) with owned | covered
    · unfold Owned at owned
      rw [empty] at owned
      exact absurd owned (not_ownedBy_nil byte)
    · exact covered
  refine ⟨conserved, kempt.valid.free, kempt.restore, empty, freed, ?_⟩
  intro first liveLen len backing source aligned shows rounded fitting
  refine alloc_of_free kept.valid empty ?_ ?_ shows rounded ?_ backing source
  · intro byte low high
    rw [cursor] at high
    rw [kept.base_eq, base_eq] at low
    exact freed byte low high
  · rw [kept.base_eq, base_eq]
    exact aligned
  · rw [cursor]
    exact fitting

/-- Two granules, the second given back by a shrink: once the first is freed
too, both are allocatable again. -/
theorem freed_granules_are_allocatable :
    let history : List Event := [.shrink 0 0x1000, .alloc 0x8000 .sharedAnon none never]
    Guarded step (withWindow 0 0x100000 megabyte_fits) Conserving history ∧
      ((after 0 0x100000 megabyte_fits history).freeAll.allocSourcedWithReuseAvoiding 0x8000
        .sharedAnon none never).2 = some (0, true) := by
  intro history
  have guarded : Guarded step (withWindow 0 0x100000 megabyte_fits) Conserving history := by
    refine ⟨trivial, ?_, trivial⟩
    intro len _ _
    exact Nat.dvd_zero granule
  rcases window_below_cursor_is_conserved megabyte_fits guarded with
    ⟨_, _, _, _, _, allocatable⟩
  exact ⟨guarded, allocatable 0 0x8000 0x8000 .sharedAnon none (by decide +kernel) (by decide)
    (by decide +kernel) (by decide +kernel)⟩

/-- A fragment that starts inside a granule grows and moves the cursor inside a
granule; the next allocation rounds the cursor up, and the bytes between are
neither reserved nor free. -/
theorem grown_fragment_loses_bytes :
    ¬ ∀ (base size : Nat) (fits : base + size < wordLimit) (history : List Event),
      granule ∣ base -> ∀ byte, base <= byte -> byte < (after base size fits history).next ->
        (after base size fits history).Accounted byte := by
  intro conserved
  have accounted := conserved 0 0x100000 megabyte_fits
    [.alloc 0x4000 .sharedAnon none never, .grow 0x1000 0x4000, .carveGuestRange 0 0x1000,
      .alloc 0x4000 .sharedAnon none never] (Nat.dvd_zero granule) 0x5000 (by decide)
    (by decide +kernel)
  unfold Accounted Owned OwnedBy Covered SharedAlloc.Occupies at accounted
  revert accounted
  decide +kernel

end SharedAperture

end Aperture
end Carrick
