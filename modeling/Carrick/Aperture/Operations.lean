import Carrick.Aperture.Allocator

namespace Carrick
namespace Aperture

open Foundation

/-!
# What the operations keep

The bytes of the window are read as sets: those some live allocation has
reserved, and those on the free list.  Every operation keeps the state valid,
never lowers the cursor, and never loses a byte that was reserved or free.  The
operations that move the cursor say in addition which bytes they pass over.
-/

namespace SharedAlloc

/-- The byte is reserved to the allocation. -/
def Occupies (alloc : SharedAlloc) (byte : Nat) : Prop :=
  alloc.guestAddr <= byte ∧ byte < alloc.guestAddr + alloc.len

/-- The guest sees the byte through the allocation. -/
def Visible (alloc : SharedAlloc) (byte : Nat) : Prop :=
  alloc.guestAddr <= byte ∧ byte < alloc.guestAddr + alloc.liveLen

/-- An allocation that shows the guest something, and no more than it has
reserved inside the window. -/
structure Sound (alloc : SharedAlloc) (low high : Nat) : Prop where
  shows : 0 < alloc.liveLen
  reserved : alloc.liveLen <= alloc.len
  low_le : low <= alloc.guestAddr
  le_high : alloc.guestAddr + alloc.len <= high

end SharedAlloc

/-- Some allocation of the list has reserved the byte. -/
def OwnedBy (allocs : List SharedAlloc) (byte : Nat) : Prop :=
  ∃ alloc ∈ allocs, alloc.Occupies byte

theorem ownedBy_append (first second : List SharedAlloc) (byte : Nat) :
    OwnedBy (first ++ second) byte <-> OwnedBy first byte ∨ OwnedBy second byte := by
  unfold OwnedBy
  constructor
  · rintro ⟨alloc, listed, inside⟩
    rcases List.mem_append.mp listed with left | right
    · exact .inl ⟨alloc, left, inside⟩
    · exact .inr ⟨alloc, right, inside⟩
  · rintro (⟨alloc, listed, inside⟩ | ⟨alloc, listed, inside⟩)
    · exact ⟨alloc, List.mem_append_left _ listed, inside⟩
    · exact ⟨alloc, List.mem_append_right _ listed, inside⟩

theorem ownedBy_cons (alloc : SharedAlloc) (rest : List SharedAlloc) (byte : Nat) :
    OwnedBy (alloc :: rest) byte <-> alloc.Occupies byte ∨ OwnedBy rest byte := by
  unfold OwnedBy
  simp

theorem not_ownedBy_nil (byte : Nat) : ¬ OwnedBy [] byte := by
  rintro ⟨alloc, listed, _⟩
  cases listed

namespace SharedAperture

/-- The byte is reserved to a live allocation. -/
def Owned (aperture : SharedAperture) (byte : Nat) : Prop := OwnedBy aperture.live byte

/-- The byte is reserved or free. -/
def Accounted (aperture : SharedAperture) (byte : Nat) : Prop :=
  aperture.Owned byte ∨ Covered aperture.free byte

structure Valid (aperture : SharedAperture) : Prop where
  free : Coalesced aperture.free
  freeInside : ∀ byte, Covered aperture.free byte ->
    aperture.base <= byte ∧ byte < aperture.windowEnd
  live : ∀ alloc ∈ aperture.live, alloc.Sound aperture.base aperture.windowEnd
  base_le : aperture.base <= aperture.next
  next_le : aperture.next <= aperture.windowEnd

/-- What an operation keeps: the window, its validity, the bump cursor from
below, and every byte that was reserved or free. -/
structure Kept (before after : SharedAperture) : Prop where
  base_eq : after.base = before.base
  size_eq : after.size = before.size
  valid : after.Valid
  next_le : before.next <= after.next
  accounted : ∀ byte, before.Accounted byte -> after.Accounted byte

theorem windowEnd_lt (aperture : SharedAperture) : aperture.windowEnd < wordLimit := aperture.fits

variable {aperture : SharedAperture}

theorem Kept.refl (valid : aperture.Valid) :
    Kept aperture aperture :=
  ⟨rfl, rfl, valid, le_rfl, fun _ accounted => accounted⟩

variable {before : SharedAperture}

theorem Kept.windowEnd_eq {after : SharedAperture} (kept : Kept before after) :
    after.windowEnd = before.windowEnd := by
  unfold windowEnd
  rw [kept.base_eq, kept.size_eq]

theorem Kept.trans {first second third : SharedAperture} (early : Kept first second)
    (late : Kept second third) : Kept first third :=
  ⟨late.base_eq.trans early.base_eq, late.size_eq.trans early.size_eq, late.valid,
    Nat.le_trans early.next_le late.next_le,
    fun byte accounted => late.accounted byte (early.accounted byte accounted)⟩

theorem Kept.restore {after : SharedAperture} (kept : Kept before after) (restore : List Interval) :
    Kept before { after with identityRestore := restore } :=
  ⟨kept.base_eq, kept.size_eq, ⟨kept.valid.free, kept.valid.freeInside, kept.valid.live,
    kept.valid.base_le, kept.valid.next_le⟩, kept.next_le, kept.accounted⟩

theorem withWindow_valid (base size : Nat) (fits : base + size < wordLimit) :
    (withWindow base size fits).Valid := by
  refine ⟨.nil, ?_, ?_, le_rfl, Nat.le_add_right _ _⟩
  · intro byte covered
    exact absurd covered (covered_nil byte)
  · intro alloc listed
    cases listed

theorem not_owned_of_physicalRange {addr len : Nat}
    (unowned : aperture.physicalRangeHasOwner addr len = false) {byte : Nat} (low : addr <= byte)
    (high : byte < addr + len) : ¬ aperture.Owned byte := by
  rintro ⟨alloc, listed, start, stop⟩
  unfold physicalRangeHasOwner at unowned
  cases total : checkedAdd addr len with
  | none => simp [total] at unowned
  | some rangeEnd =>
    have rangeEnd_eq := (checkedAdd_eq_some_iff.mp total).1
    simp only [total, List.any_eq_false] at unowned
    have clear := unowned alloc listed
    cases allocTotal : checkedAdd alloc.guestAddr alloc.len with
    | none => simp [allocTotal] at clear
    | some allocEnd =>
      have allocEnd_eq := (checkedAdd_eq_some_iff.mp allocTotal).1
      simp only [allocTotal, Bool.and_eq_true, decide_eq_true_eq, not_and] at clear
      omega

/-! ## Lists of released ranges -/

/-- Returning ranges keeps the entries apart and adds exactly their bytes. -/
theorem release_spaced {gap : Nat} (small_gap : gap <= 1) {released : List Interval} :
    ∀ {free : List Interval}, Spaced gap free ->
    (∀ region ∈ released, 0 < region.2 ∧ region.1 + region.2 < wordLimit) ->
    Spaced gap (release free released) ∧
      ∀ byte, Covered (release free released) byte <->
        Covered free byte ∨ Covered released byte := by
  induction released with
  | nil =>
    intro free spaced _
    exact ⟨spaced, fun byte => by simp [release]⟩
  | cons region rest ih =>
    intro free spaced sound
    have head := sound region (by simp)
    have inserted := freeInsert_spaced small_gap spaced head.1 head.2
    have later := ih inserted.1 (fun other listed => sound other (by simp [listed]))
    refine ⟨later.1, ?_⟩
    intro byte
    have whole := later.2 byte
    rw [inserted.2 byte] at whole
    rw [covered_cons]
    refine whole.trans ?_
    tauto

theorem release_spec {released free : List Interval} (coalesced : Coalesced free)
    (sound : ∀ region ∈ released, 0 < region.2 ∧ region.1 + region.2 < wordLimit) :
    Coalesced (release free released) ∧
      ∀ byte, Covered (release free released) byte <->
        Covered free byte ∨ Covered released byte := by
  have spaced := release_spaced (Nat.le_refl 1) (coalesced_iff_spaced.mp coalesced) sound
  exact ⟨coalesced_iff_spaced.mpr spaced.1, spaced.2⟩

/-! ## Replacing one allocation -/

variable {alloc : SharedAlloc}

theorem allocAt_split {guestAddr : Nat} (found : aperture.allocAt guestAddr = some alloc) :
    alloc.guestAddr = guestAddr ∧ ∃ front back, aperture.live = front ++ alloc :: back ∧
      (∀ change, updateAt guestAddr change aperture.live = front ++ change alloc :: back) ∧
      aperture.live.eraseP (fun other => other.guestAddr = guestAddr) = front ++ back := by
  unfold allocAt at found
  rcases List.find?_eq_some_iff_append.mp found with ⟨named, front, back, split, others⟩
  have sameAddr : alloc.guestAddr = guestAddr := by simpa using named
  have different : ∀ other ∈ front, other.guestAddr ≠ guestAddr := by
    intro other listed
    simpa using others other listed
  refine ⟨sameAddr, front, back, split, ?_, ?_⟩
  · intro change
    rw [split]
    clear split others found
    induction front with
    | nil => simp [updateAt, sameAddr]
    | cons head rest ih =>
      have skipped := different head (by simp)
      rw [List.cons_append, updateAt, if_neg skipped, List.cons_append]
      rw [ih (fun other listed => different other (by simp [listed]))]
  · rw [split, List.eraseP_append_right, List.eraseP_cons_of_pos (by simp [sameAddr])]
    intro other listed
    simpa using different other listed

theorem find?_updateAt {guestAddr : Nat} {change : SharedAlloc -> SharedAlloc}
    (fixed : ∀ alloc, (change alloc).guestAddr = alloc.guestAddr) (live : List SharedAlloc) :
    (updateAt guestAddr change live).find? (fun alloc => alloc.guestAddr = guestAddr) =
      (live.find? (fun alloc => alloc.guestAddr = guestAddr)).map change := by
  induction live with
  | nil => rfl
  | cons alloc rest ih =>
    unfold updateAt
    by_cases named : alloc.guestAddr = guestAddr
    · simp [named, fixed]
    · simp [named, ih]

variable {front back : List SharedAlloc}

/-- An allocation replaced by one of the same start that accounts, with the new
free list, for what it had. -/
theorem kept_resize (valid : before.Valid) {changed : SharedAlloc}
    (split : before.live = front ++ alloc :: back) {free : List Interval} {next : Nat}
    (freeCoalesced : Coalesced free)
    (freeInside : ∀ byte, Covered free byte -> before.base <= byte ∧ byte < before.windowEnd)
    (sound : changed.Sound before.base before.windowEnd) (low : before.next <= next)
    (high : next <= before.windowEnd)
    (own : ∀ byte, alloc.Occupies byte -> changed.Occupies byte ∨ Covered free byte)
    (rest : ∀ byte, Covered before.free byte -> Covered free byte ∨ changed.Occupies byte) :
    Kept before { before with
      live := front ++ changed :: back
      free := free
      next := next } := by
  refine ⟨rfl, rfl, ⟨freeCoalesced, freeInside, ?_,
    Nat.le_trans valid.base_le low, high⟩, low, ?_⟩
  · intro other listed
    rcases List.mem_append.mp listed with inFront | later
    · exact valid.live other (by rw [split]; simp [inFront])
    · rcases List.mem_cons.mp later with same | inBack
      · rw [same]
        exact sound
      · exact valid.live other (by rw [split]; simp [inBack])
  intro byte accounted
  unfold Accounted Owned at accounted ⊢
  rw [split, ownedBy_append, ownedBy_cons] at accounted
  rw [ownedBy_append, ownedBy_cons]
  have fromOwn := own byte
  have fromFree := rest byte
  tauto

theorem split_sound (valid : before.Valid) (split : before.live = front ++ alloc :: back) :
    alloc.Sound before.base before.windowEnd :=
  valid.live alloc (by rw [split]; simp)

theorem granule_pos : 0 < granule := by decide +kernel

/-! ## Releasing a tail -/

theorem releaseTail_cases (aperture : SharedAperture) (guestAddr : Nat) :
    (aperture.releaseTail guestAddr).1 = aperture ∨
    ∃ alloc front back keepLen, alloc.guestAddr = guestAddr ∧
      aperture.live = front ++ alloc :: back ∧ alignUp alloc.liveLen granule = some keepLen ∧
      keepLen < alloc.len ∧
      (aperture.releaseTail guestAddr).1 = { aperture with
        live := front ++ { alloc with len := keepLen } :: back
        free := freeInsert aperture.free (guestAddr + keepLen) (alloc.len - keepLen) } := by
  unfold releaseTail
  cases found : aperture.allocAt guestAddr with
  | none => exact .inl rfl
  | some alloc =>
    rcases allocAt_split found with ⟨named, front, back, split, updated, _⟩
    simp only
    cases rounded : alignUp alloc.liveLen granule with
    | none => exact .inl rfl
    | some keepLen =>
      simp only
      by_cases whole : alloc.len <= keepLen
      · rw [if_pos whole]
        exact .inl rfl
      rw [if_neg whole]
      cases start : checkedAdd alloc.guestAddr keepLen with
      | none => exact .inl rfl
      | some releaseStart =>
        have start_eq := (checkedAdd_eq_some_iff.mp start).1
        refine .inr ⟨alloc, front, back, keepLen, named, split, rounded, by omega, ?_⟩
        simp only [updated, <- start_eq, named]

theorem releaseTail_kept (valid : aperture.Valid) (guestAddr : Nat) :
    Kept aperture (aperture.releaseTail guestAddr).1 := by
  rcases aperture.releaseTail_cases guestAddr with
    same | ⟨alloc, front, back, keepLen, named, split, rounded, less, after⟩
  · rw [same]
    exact .refl valid
  rw [after]
  have sound := split_sound valid split
  have keeps := le_of_alignUp rounded
  have words := aperture.windowEnd_lt
  have bounds := sound.le_high
  have positive : 0 < alloc.len - keepLen := by omega
  have small : guestAddr + keepLen + (alloc.len - keepLen) < wordLimit := by omega
  have covers := freeInsert_covers valid.free positive small
  have lower := sound.low_le
  refine kept_resize valid split (freeInsert_coalesced valid.free positive small) ?_
    ⟨sound.shows, keeps, sound.low_le, ?_⟩ le_rfl valid.next_le ?_ ?_
  · intro byte covered
    rcases (covers byte).mp covered with old | new
    · exact valid.freeInside byte old
    · omega
  · simp only
    omega
  · intro byte occupied
    rw [covers byte]
    unfold SharedAlloc.Occupies at occupied ⊢
    simp only
    omega
  · intro byte covered
    rw [covers byte]
    exact .inl (.inl covered)

/-! ## Shrinking -/

/-- What `shrink` can do: shorten the visible part, release the tail, and note
the bytes a private reservation gave up.  The note is missing only where the
new length cannot be rounded. -/
theorem shrink_cases (aperture : SharedAperture) (guestAddr newLiveLen : Nat) :
    (aperture.shrink guestAddr newLiveLen).1 = aperture ∨
    ∃ alloc front back, aperture.allocAt guestAddr = some alloc ∧
      aperture.live = front ++ alloc :: back ∧
      0 < newLiveLen ∧ newLiveLen <= alloc.liveLen ∧
      ∃ shrunk, shrunk = { aperture with
          live := front ++ { alloc with liveLen := newLiveLen } :: back } ∧
        (((aperture.shrink guestAddr newLiveLen).1 = (shrunk.releaseTail guestAddr).1 ∧
            (alloc.backing.isPrivateReservation = true -> newLiveLen < alloc.liveLen ->
              alignUp newLiveLen granule = none ∨
                wordLimit <= guestAddr + max alloc.len alloc.liveLen)) ∨
          (newLiveLen < alloc.liveLen ∧
            (aperture.shrink guestAddr newLiveLen).1 = { (shrunk.releaseTail guestAddr).1 with
              identityRestore := freeInsert (shrunk.releaseTail guestAddr).1.identityRestore
                (guestAddr + newLiveLen) (alloc.liveLen - newLiveLen) })) := by
  unfold shrink
  by_cases zero : newLiveLen = 0
  · rw [if_pos zero]
    exact .inl rfl
  rw [if_neg zero]
  cases found : aperture.allocAt guestAddr with
  | none => exact .inl rfl
  | some alloc =>
    rcases allocAt_split found with ⟨named, front, back, split, updated, _⟩
    simp only
    by_cases longer : alloc.liveLen < newLiveLen
    · rw [if_pos longer]
      exact .inl rfl
    rw [if_neg longer, updated]
    refine .inr ⟨alloc, front, back, rfl, split, Nat.pos_of_ne_zero zero, by omega,
      _, rfl, ?_⟩
    have renamed := @find?_updateAt guestAddr
      (fun found => { found with liveLen := newLiveLen }) (fun _ => rfl) aperture.live
    rw [updated, show aperture.live.find? _ = _ from found] at renamed
    rcases tail : SharedAperture.releaseTail { aperture with
      live := front ++ { alloc with liveLen := newLiveLen } :: back } guestAddr with
      ⟨after, answer⟩
    cases answer with
    | none =>
      refine .inl ⟨rfl, fun _ _ => ?_⟩
      simp only [releaseTail, allocAt, renamed, Option.map_some] at tail
      cases rounded : alignUp newLiveLen granule with
      | none => exact .inl rfl
      | some keepLen =>
        simp only [rounded, checkedAdd] at tail
        grind
    | some done =>
      simp only
      by_cases restoring :
          (alloc.backing.isPrivateReservation && newLiveLen < alloc.liveLen) = true
      · rw [if_pos restoring]
        rw [Bool.and_eq_true, decide_eq_true_eq] at restoring
        cases start : checkedAdd guestAddr newLiveLen with
        | none =>
          refine .inl ⟨rfl, fun _ _ => .inr ?_⟩
          simp only [checkedAdd, ite_eq_right_iff] at start
          grind
        | some restoreStart =>
          have start_eq := (checkedAdd_eq_some_iff.mp start).1
          refine .inr ⟨restoring.2, ?_⟩
          simp only [start_eq]
      · rw [if_neg restoring]
        rw [Bool.and_eq_true, decide_eq_true_eq, not_and] at restoring
        exact .inl ⟨rfl, fun owned less => absurd less (restoring owned)⟩

theorem shrink_kept (valid : aperture.Valid) (guestAddr newLiveLen : Nat) :
    Kept aperture (aperture.shrink guestAddr newLiveLen).1 := by
  rcases aperture.shrink_cases guestAddr newLiveLen with
    same | ⟨alloc, front, back, _, split, positive, shorter, shrunk, shape, ended⟩
  · rw [same]
    exact .refl valid
  have sound := split_sound valid split
  have shortened : Kept aperture shrunk := by
    rw [shape]
    exact kept_resize valid split valid.free valid.freeInside
      ⟨positive, Nat.le_trans shorter sound.reserved, sound.low_le, sound.le_high⟩
      le_rfl valid.next_le (fun _ occupied => .inl occupied)
      (fun _ covered => .inl covered)
  have released := shortened.trans (releaseTail_kept shortened.valid guestAddr)
  rcases ended with ⟨plain, _⟩ | ⟨less, restored⟩
  · rw [plain]
    exact released
  · rw [restored]
    exact released.restore _

/-! ## Freeing -/

theorem freeAt_cases (aperture : SharedAperture) (guestAddr : Nat) :
    (aperture.freeAt guestAddr).1 = aperture ∨
    ∃ alloc front back, aperture.allocAt guestAddr = some alloc ∧
      aperture.live = front ++ alloc :: back ∧
      (aperture.freeAt guestAddr).1 = { aperture with
        live := front ++ back
        free := freeInsert aperture.free alloc.guestAddr alloc.len } := by
  unfold freeAt
  cases found : aperture.allocAt guestAddr with
  | none => exact .inl rfl
  | some alloc =>
    rcases allocAt_split found with ⟨_, front, back, split, _, erased⟩
    refine .inr ⟨alloc, front, back, rfl, split, ?_⟩
    simp only [erased]

theorem freed_kept (valid : aperture.Valid) (split : aperture.live = front ++ alloc :: back) :
    Kept aperture { aperture with
      live := front ++ back
      free := freeInsert aperture.free alloc.guestAddr alloc.len } := by
  have sound := split_sound valid split
  have words := aperture.windowEnd_lt
  have bounds := sound.le_high
  have lower := sound.low_le
  have positive : 0 < alloc.len := Nat.lt_of_lt_of_le sound.shows sound.reserved
  have small : alloc.guestAddr + alloc.len < wordLimit := by omega
  have covers := freeInsert_covers valid.free positive small
  refine ⟨rfl, rfl, ⟨freeInsert_coalesced valid.free positive small, ?_, ?_,
    valid.base_le, valid.next_le⟩, le_rfl, ?_⟩
  · intro byte covered
    rcases (covers byte).mp covered with old | new
    · exact valid.freeInside byte old
    · show aperture.base <= byte ∧ byte < aperture.windowEnd
      omega
  · intro other listed
    refine valid.live other ?_
    rw [split]
    rcases List.mem_append.mp listed with inFront | inBack
    · simp [inFront]
    · simp [inBack]
  intro byte accounted
  unfold Accounted Owned at accounted ⊢
  rw [split, ownedBy_append, ownedBy_cons] at accounted
  rw [ownedBy_append, covers byte]
  unfold SharedAlloc.Occupies at accounted
  tauto

theorem freeAt_kept (valid : aperture.Valid) (guestAddr : Nat) :
    Kept aperture (aperture.freeAt guestAddr).1 := by
  rcases aperture.freeAt_cases guestAddr with same | ⟨alloc, front, back, _, split, after⟩
  · rw [same]
    exact .refl valid
  · rw [after]
    exact freed_kept valid split

/-! ## Growing -/

/-- What `grow` can do: fail, show more of the reservation, or claim whole
granules above it that nothing live meets. -/
theorem grow_cases (aperture : SharedAperture) (guestAddr newLiveLen : Nat) :
    (aperture.grow guestAddr newLiveLen = (aperture, none)) ∨
    ∃ alloc front back needed, aperture.allocAt guestAddr = some alloc ∧
      alloc.guestAddr = guestAddr ∧ aperture.live = front ++ alloc :: back ∧
      alloc.liveLen <= newLiveLen ∧ alignUp newLiveLen granule = some needed ∧
      ((needed <= alloc.len ∧
          aperture.grow guestAddr newLiveLen = ({ aperture with
              live := front ++ { alloc with liveLen := newLiveLen } :: back },
            (checkedAdd guestAddr alloc.len).map (fun claimStart => (claimStart, 0)))) ∨
        (alloc.len < needed ∧ guestAddr + needed <= aperture.windowEnd ∧
          aperture.physicalRangeHasOwner (guestAddr + alloc.len) (needed - alloc.len) = false ∧
          aperture.grow guestAddr newLiveLen = ({ aperture with
              free := intervalRemove aperture.free (guestAddr + alloc.len) (guestAddr + needed)
              next := if aperture.next < guestAddr + needed then guestAddr + needed
                else aperture.next
              live := front ++ { alloc with len := needed, liveLen := newLiveLen } :: back },
            some (guestAddr + alloc.len, needed - alloc.len)))) := by
  unfold grow
  cases found : aperture.allocAt guestAddr with
  | none => exact .inl rfl
  | some alloc =>
    rcases allocAt_split found with ⟨named, front, back, split, updated, _⟩
    simp only
    by_cases shorter : newLiveLen < alloc.liveLen
    · rw [if_pos shorter]
      exact .inl rfl
    rw [if_neg shorter]
    cases rounded : alignUp newLiveLen granule with
    | none => exact .inl rfl
    | some needed =>
      simp only
      by_cases inside : needed <= alloc.len
      · rw [if_pos inside, updated]
        exact .inr ⟨alloc, front, back, needed, rfl, named, split, by omega, rfl,
          .inl ⟨inside, rfl⟩⟩
      rw [if_neg inside]
      cases start : checkedAdd guestAddr alloc.len with
      | none => exact .inl rfl
      | some claimStart =>
        have start_eq := (checkedAdd_eq_some_iff.mp start).1
        simp only
        unfold claim
        cases stop : checkedAdd claimStart (needed - alloc.len) with
        | none => exact .inl rfl
        | some claimEnd =>
          have stop_eq := (checkedAdd_eq_some_iff.mp stop).1
          have ending : guestAddr + needed = claimEnd := by omega
          simp only
          by_cases past : aperture.windowEnd < claimEnd
          · rw [if_pos past]
            exact .inl rfl
          rw [if_neg past]
          by_cases owned : aperture.physicalRangeHasOwner claimStart
              (needed - alloc.len) = true
          · rw [if_pos owned]
            exact .inl rfl
          rw [if_neg owned, updated]
          refine .inr ⟨alloc, front, back, needed, rfl, named, split, by omega,
            rfl, .inr ⟨by omega, by omega, ?_, ?_⟩⟩
          · rw [start_eq]
            exact Bool.eq_false_iff.mpr owned
          · rw [ending, start_eq]

theorem grow_kept (valid : aperture.Valid) (guestAddr newLiveLen : Nat) :
    Kept aperture (aperture.grow guestAddr newLiveLen).1 := by
  rcases aperture.grow_cases guestAddr newLiveLen with
    same | ⟨alloc, front, back, needed, _, named, split, longer, rounded, inside | claimed⟩
  · rw [same]
    exact .refl valid
  · rcases inside with ⟨fitting, after⟩
    rw [after]
    have sound := split_sound valid split
    have rounds := le_of_alignUp rounded
    exact kept_resize valid split valid.free valid.freeInside
      ⟨Nat.lt_of_lt_of_le sound.shows longer, Nat.le_trans rounds fitting, sound.low_le,
        sound.le_high⟩
      le_rfl valid.next_le (fun _ occupied => .inl occupied)
      (fun _ covered => .inl covered)
  rcases claimed with ⟨more, bounds, unowned, after⟩
  rw [after]
  have sound := split_sound valid split
  have rounds := le_of_alignUp rounded
  have covers := intervalRemove_covers valid.free.inWords (guestAddr + alloc.len) (guestAddr + needed)
  have high := valid.next_le
  refine kept_resize valid split (intervalRemove_coalesced valid.free (by omega)) ?_
    ⟨Nat.lt_of_lt_of_le sound.shows longer, rounds, sound.low_le, ?_⟩ ?_ ?_ ?_ ?_
  · intro byte covered
    exact valid.freeInside byte ((covers byte).mp covered).1
  · simp only [named]
    exact bounds
  · split_ifs <;> omega
  · split_ifs <;> omega
  · intro byte occupied
    refine .inl ?_
    unfold SharedAlloc.Occupies at occupied ⊢
    simp only
    omega
  intro byte covered
  rw [covers byte]
  by_cases taken : guestAddr + alloc.len <= byte ∧ byte < guestAddr + needed
  · refine .inr ?_
    unfold SharedAlloc.Occupies
    simp only
    omega
  · exact .inl ⟨covered, taken⟩

end SharedAperture

end Aperture
end Carrick
