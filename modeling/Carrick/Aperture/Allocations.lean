import Carrick.Aperture.Operations

namespace Carrick
namespace Aperture

open Foundation

/-!
# Allocating

An allocation is served from the free list, at an aligned place that no live
reservation meets, or by the bump cursor.  The bump loop moves the cursor over
ranges it has to leave out and puts these on the free list.  Rounding the cursor
up to a granule passes over bytes that go nowhere; they are told apart here by
the first address the loop tries.
-/

namespace SharedAperture

/-! ## The search of the free list -/

variable {aperture : SharedAperture} {len : Nat} {avoid : Nat -> Nat -> Bool}

theorem firstCandidate_spec {rangeEnd : Nat} (fuel : Nat) : ∀ {candidate found : Nat},
    firstCandidate aperture len avoid rangeEnd fuel candidate = some (some found) ->
      candidate <= found ∧ found + len <= rangeEnd ∧
        aperture.physicalRangeHasOwner found len = false := by
  induction fuel with
  | zero =>
    intro candidate found computed
    cases computed
  | succ fuel ih =>
    intro candidate found computed
    unfold firstCandidate at computed
    cases total : checkedAdd candidate len with
    | none => simp [total] at computed
    | some stop =>
      have stop_eq := (checkedAdd_eq_some_iff.mp total).1
      simp only [total] at computed
      by_cases fitting : stop <= rangeEnd
      · rw [if_pos fitting] at computed
        by_cases taken : (!aperture.physicalRangeHasOwner candidate len &&
            !avoid candidate len) = true
        · rw [if_pos taken] at computed
          cases computed
          simp only [Bool.and_eq_true, Bool.not_eq_true'] at taken
          exact ⟨le_rfl, by omega, taken.1⟩
        rw [if_neg taken] at computed
        cases moved : checkedAdd candidate granule with
        | none => simp [moved] at computed
        | some following =>
          have moved_eq := (checkedAdd_eq_some_iff.mp moved).1
          simp only [moved] at computed
          rcases ih computed with ⟨later, inside, unowned⟩
          exact ⟨by omega, inside, unowned⟩
      · rw [if_neg fitting] at computed
        cases computed

/-- The candidates of a range end before the fuel does: more fuel changes nothing. -/
theorem firstCandidate_fuel {rangeEnd : Nat} (whole : granule <= len) (extra fuel : Nat) :
    ∀ {candidate : Nat}, (rangeEnd - candidate) / granule < fuel ->
      firstCandidate aperture len avoid rangeEnd (fuel + extra) candidate =
        firstCandidate aperture len avoid rangeEnd fuel candidate := by
  have positive := granule_pos
  induction fuel with
  | zero =>
    intro candidate enough
    cases enough
  | succ fuel ih =>
    intro candidate enough
    rw [Nat.add_right_comm]
    unfold firstCandidate
    cases total : checkedAdd candidate len with
    | none => rfl
    | some stop =>
      have stop_eq := (checkedAdd_eq_some_iff.mp total).1
      simp only
      by_cases fitting : stop <= rangeEnd
      · rw [if_pos fitting, if_pos fitting]
        cases moved : checkedAdd candidate granule with
        | none => rfl
        | some following =>
          have moved_eq := (checkedAdd_eq_some_iff.mp moved).1
          have room : rangeEnd - candidate = rangeEnd - following + granule := by omega
          have fewer : (rangeEnd - following) / granule < fuel := by
            rw [room, Nat.add_div_right _ positive] at enough
            omega
          simp only
          rw [ih fewer]
      · rw [if_neg fitting, if_neg fitting]

variable {regions : List Interval}

theorem findReusable_spec : ∀ {first position addr : Nat},
    aperture.findReusable len avoid first regions = some (some (position, addr)) ->
      ∃ index region, position = first + index ∧ regions[index]? = some region ∧
        region.1 <= addr ∧ addr + len <= region.1 + region.2 ∧
        aperture.physicalRangeHasOwner addr len = false := by
  induction regions with
  | nil =>
    intro first position addr computed
    cases computed
  | cons region rest ih =>
    intro first position addr computed
    rcases region with ⟨start, rangeLen⟩
    unfold findReusable at computed
    cases total : checkedAdd start rangeLen with
    | none => simp [total] at computed
    | some rangeEnd =>
      have total_eq := (checkedAdd_eq_some_iff.mp total).1
      simp only [total] at computed
      cases aligned : alignUp start granule with
      | none => simp [aligned] at computed
      | some candidate =>
        have above := le_of_alignUp aligned
        simp only [aligned] at computed
        rcases searched : firstCandidate aperture len avoid rangeEnd
          ((rangeEnd - candidate) / granule + 1) candidate with _ | _ | found
        · simp [searched] at computed
        · simp only [searched] at computed
          rcases ih computed with
            ⟨index, later, position_eq, listed, inside⟩
          exact ⟨index + 1, later, by omega, by simpa using listed, inside⟩
        simp only [searched, Option.some.injEq, Prod.mk.injEq] at computed
        rcases firstCandidate_spec _ searched with ⟨low, high, unowned⟩
        refine ⟨0, (start, rangeLen), by omega, rfl, ?_, ?_, ?_⟩
        · simp only
          omega
        · simp only
          omega
        · rw [<- computed.2]
          exact unowned

/-! ## Reusing a free range -/

theorem eraseIdx_covers (coalesced : Coalesced regions) {index : Nat} {region : Interval}
    (listed : regions[index]? = some region) (byte : Nat) :
    Covered (regions.eraseIdx index) byte <->
      Covered regions byte ∧ ¬ (region.1 <= byte ∧ byte < region.1 + region.2) := by
  induction regions generalizing index with
  | nil => simp at listed
  | cons head rest ih =>
    rcases Coalesced.cons_iff.mp coalesced with ⟨above, nonempty, inWords, tail⟩
    cases index with
    | zero =>
      simp only [List.getElem?_cons_zero, Option.some.injEq] at listed
      subst listed
      rw [List.eraseIdx_cons_zero, covered_cons]
      constructor
      · intro covered
        refine ⟨.inr covered, ?_⟩
        rcases covered with ⟨other, member, inside⟩
        have gap := above other member
        omega
      · rintro ⟨here | later, outside⟩
        · exact absurd here outside
        · exact later
    | succ index =>
      simp only [List.getElem?_cons_succ] at listed
      rw [List.eraseIdx_cons_succ, covered_cons, covered_cons, ih tail listed]
      have gap := above region (List.mem_of_getElem? listed)
      constructor
      · rintro (here | later)
        · exact ⟨.inl here, by omega⟩
        · exact ⟨.inr later.1, later.2⟩
      · rintro ⟨here | later, outside⟩
        · exact .inl here
        · exact .inr ⟨later, outside⟩

theorem insertBetween (coalesced : Coalesced regions) (start stop : Nat)
    (small : stop < wordLimit) :
    Coalesced (if start < stop then freeInsert regions start (stop - start) else regions) ∧
      ∀ byte, Covered (if start < stop then freeInsert regions start (stop - start) else regions)
        byte <-> Covered regions byte ∨ (start <= byte ∧ byte < stop) := by
  split_ifs with room
  · have whole : start + (stop - start) = stop := by omega
    have inWords : start + (stop - start) < wordLimit := by omega
    refine ⟨freeInsert_coalesced coalesced (by omega) inWords, ?_⟩
    intro byte
    rw [freeInsert_covers coalesced (by omega) inWords, whole]
  refine ⟨coalesced, ?_⟩
  intro byte
  constructor
  · exact .inl
  · rintro (old | empty)
    · exact old
    · omega

/-- An allocation out of the free list: its bytes were free, nobody's, and are
the only ones that leave the list. -/
structure Reused (before : SharedAperture) (alloc : SharedAlloc) (after : SharedAperture) :
    Prop where
  base_eq : after.base = before.base
  size_eq : after.size = before.size
  next_eq : after.next = before.next
  restore_eq : after.identityRestore = before.identityRestore
  live_eq : after.live = before.live ++ [alloc]
  unowned : before.physicalRangeHasOwner alloc.guestAddr alloc.len = false
  wasFree : ∀ byte, alloc.Occupies byte -> Covered before.free byte
  coalesced : Coalesced after.free
  covers : ∀ byte, Covered after.free byte <->
    Covered before.free byte ∧ ¬ alloc.Occupies byte

theorem reuse_spec (valid : aperture.Valid) {position : Nat} (alloc : SharedAlloc)
    {region : Interval} (listed : aperture.free[position]? = some region)
    (low : region.1 <= alloc.guestAddr) (high : alloc.guestAddr + alloc.len <= region.1 + region.2)
    (unowned : aperture.physicalRangeHasOwner alloc.guestAddr alloc.len = false) :
    (aperture.reuse position alloc).2 = some (alloc.guestAddr, true) ∧
      Reused aperture alloc (aperture.reuse position alloc).1 := by
  have member := List.mem_of_getElem? listed
  have words := valid.free.inWords region member
  have total := checkedAdd_of_lt words
  have ending := checkedAdd_of_lt (Nat.lt_of_le_of_lt high words)
  have erased := eraseIdx_covers valid.free listed
  have removed := valid.free.sublist (List.eraseIdx_sublist _ position)
  have below := insertBetween removed region.1 alloc.guestAddr (by omega)
  have above := insertBetween below.1 (alloc.guestAddr + alloc.len) (region.1 + region.2) words
  unfold reuse
  simp only [listed, total, ending]
  refine ⟨trivial, rfl, rfl, rfl, rfl, rfl, unowned, ?_, above.1, ?_⟩
  · intro byte occupied
    exact ⟨region, member, by have := occupied.1; omega, by have := occupied.2; omega⟩
  intro byte
  have whole := above.2 byte
  rw [below.2 byte, erased byte] at whole
  refine whole.trans ?_
  unfold SharedAlloc.Occupies
  constructor
  · rintro ((⟨covered, outside⟩ | before) | after)
    · exact ⟨covered, by omega⟩
    · exact ⟨⟨region, member, by omega, by omega⟩, by omega⟩
    · exact ⟨⟨region, member, by omega, by omega⟩, by omega⟩
  · rintro ⟨covered, outside⟩
    by_cases inside : region.1 <= byte ∧ byte < region.1 + region.2
    · omega
    · exact .inl (.inl ⟨covered, inside⟩)

theorem Reused.kept {before after : SharedAperture} {alloc : SharedAlloc}
    (reused : Reused before alloc after) (valid : before.Valid)
    (shows : 0 < alloc.liveLen) (reserved : alloc.liveLen <= alloc.len) : Kept before after := by
  have windowEnd_eq : after.windowEnd = before.windowEnd := by
    unfold windowEnd
    rw [reused.base_eq, reused.size_eq]
  refine ⟨reused.base_eq, reused.size_eq, ⟨reused.coalesced, ?_, ?_, ?_, ?_⟩, ?_, ?_⟩
  · intro byte covered
    rw [reused.base_eq, windowEnd_eq]
    exact valid.freeInside byte ((reused.covers byte).mp covered).1
  · intro other listed
    rw [reused.base_eq, windowEnd_eq]
    rw [reused.live_eq] at listed
    rcases List.mem_append.mp listed with old | new
    · exact valid.live other old
    rw [List.mem_singleton.mp new]
    have first := valid.freeInside _ (reused.wasFree alloc.guestAddr
      ⟨le_rfl, by omega⟩)
    have last := valid.freeInside _ (reused.wasFree (alloc.guestAddr + alloc.len - 1)
      ⟨by omega, by omega⟩)
    exact ⟨shows, reserved, first.1, by omega⟩
  · rw [reused.base_eq, reused.next_eq]
    exact valid.base_le
  · rw [windowEnd_eq, reused.next_eq]
    exact valid.next_le
  · rw [reused.next_eq]
  intro byte accounted
  unfold Accounted Owned at accounted ⊢
  rw [reused.live_eq, ownedBy_append, ownedBy_cons, reused.covers byte]
  by_cases taken : alloc.Occupies byte
  · exact .inl (.inr (.inl taken))
  · tauto

/-! ## The bump loop -/

/-- What the bump loop does from its first address: everything from there up to
`parked` goes to the free list, and the allocation starts at `parked`. -/
structure Bumped (before : SharedAperture) (first len : Nat) (place : Nat -> SharedAlloc)
    (parked : Nat) (result : SharedAperture × Option (Nat × Bool)) : Prop where
  base_eq : result.1.base = before.base
  size_eq : result.1.size = before.size
  restore_eq : result.1.identityRestore = before.identityRestore
  first_le : first <= parked
  coalesced : Coalesced result.1.free
  covers : ∀ byte, Covered result.1.free byte <->
    Covered before.free byte ∨ (first <= byte ∧ byte < parked)
  ended : (result.2 = none ∧ result.1.live = before.live ∧
      ((parked = first ∧ result.1.next = before.next) ∨
        (result.1.next = parked ∧ parked <= before.windowEnd))) ∨
    (result.2 = some (parked, false) ∧ result.1.live = before.live ++ [place parked] ∧
      result.1.next = parked + len ∧ parked + len <= before.windowEnd ∧
      before.physicalRangeHasOwner parked len = false)

theorem bump_spec (avoid : Nat -> Nat -> Bool) (place : Nat -> SharedAlloc) (positive : 0 < len)
    (whole : granule ∣ len) (fuel : Nat) :
    ∀ {addr : Nat} {aperture : SharedAperture}, Coalesced aperture.free -> granule ∣ addr ->
      ∃ parked, Bumped aperture addr len place parked
        (bump len avoid place fuel addr aperture) := by
  induction fuel with
  | zero =>
    intro addr aperture free _
    refine ⟨addr, rfl, rfl, rfl, le_rfl, free, ?_,
      .inl ⟨rfl, rfl, .inl ⟨rfl, rfl⟩⟩⟩
    intro byte
    show Covered aperture.free byte <-> _
    constructor
    · exact .inl
    · rintro (old | empty)
      · exact old
      · omega
  | succ fuel ih =>
    intro addr aperture free aligned
    have untouched : ∀ byte, Covered aperture.free byte <->
        Covered aperture.free byte ∨ (addr <= byte ∧ byte < addr) := by
      intro byte
      constructor
      · exact .inl
      · rintro (old | empty)
        · exact old
        · omega
    unfold bump
    cases total : checkedAdd addr len with
    | none =>
      exact ⟨addr, rfl, rfl, rfl, le_rfl, free, untouched,
        .inl ⟨rfl, rfl, .inl ⟨rfl, rfl⟩⟩⟩
    | some stop =>
      rcases checkedAdd_eq_some_iff.mp total with ⟨stop_eq, small⟩
      simp only
      by_cases past : aperture.windowEnd < stop
      · rw [if_pos past]
        exact ⟨addr, rfl, rfl, rfl, le_rfl, free, untouched,
          .inl ⟨rfl, rfl, .inl ⟨rfl, rfl⟩⟩⟩
      rw [if_neg past]
      by_cases excluded : (SharedAperture.physicalRangeHasOwner { aperture with next := stop }
          addr len || avoid addr len) = true
      · rw [if_pos excluded]
        have inWords : addr + len < wordLimit := by omega
        have parkedFree := freeInsert_coalesced free positive inWords
        have parkedCovers := freeInsert_covers free positive inWords
        have again : granule ∣ stop := stop_eq ▸ Nat.dvd_add aligned whole
        rw [alignUp_of_dvd again]
        have later := @ih stop { aperture with
          next := stop, free := freeInsert aperture.free addr len } parkedFree again
        rcases later with ⟨parked, bumped⟩
        have covers := bumped.covers
        have first_le := bumped.first_le
        refine ⟨parked, bumped.base_eq, bumped.size_eq, bumped.restore_eq, by omega,
          bumped.coalesced, ?_, ?_⟩
        · intro byte
          have step := covers byte
          rw [parkedCovers byte] at step
          refine step.trans ?_
          have joined : (addr <= byte ∧ byte < addr + len) ∨ (stop <= byte ∧ byte < parked) <->
              (addr <= byte ∧ byte < parked) := by omega
          rw [or_assoc, joined]
        rcases bumped.ended with ⟨none, live, halted⟩ | granted
        · refine .inl ⟨none, live, .inr ?_⟩
          rcases halted with ⟨same, next⟩ | moved
          · rw [next, same]
            exact ⟨rfl, Nat.le_of_not_lt past⟩
          · exact moved
        · exact .inr granted
      · rw [if_neg excluded]
        rw [Bool.or_eq_true, not_or] at excluded
        refine ⟨addr, rfl, rfl, rfl, le_rfl, free, untouched,
          .inr ⟨rfl, rfl, stop_eq.symm, by omega, ?_⟩⟩
        exact Bool.eq_false_iff.mpr excluded.1

/-- The bump loop ends before its fuel does: more fuel changes nothing. -/
theorem bump_fuel {place : Nat -> SharedAlloc} (whole : granule ∣ len) (positive : 0 < len)
    (extra fuel : Nat) :
    ∀ {addr : Nat} {aperture : SharedAperture}, granule ∣ addr ->
      (aperture.windowEnd - addr) / granule < fuel ->
      bump len avoid place (fuel + extra) addr aperture =
        bump len avoid place fuel addr aperture := by
  have stride := granule_pos
  have atLeast := Nat.le_of_dvd positive whole
  induction fuel with
  | zero =>
    intro addr aperture _ enough
    cases enough
  | succ fuel ih =>
    intro addr aperture aligned enough
    rw [Nat.add_right_comm]
    unfold bump
    cases total : checkedAdd addr len with
    | none => rfl
    | some stop =>
      have stop_eq := (checkedAdd_eq_some_iff.mp total).1
      simp only
      by_cases past : aperture.windowEnd < stop
      · rw [if_pos past, if_pos past]
      rw [if_neg past, if_neg past]
      have again : granule ∣ stop := stop_eq ▸ Nat.dvd_add aligned whole
      rw [alignUp_of_dvd again]
      have smaller : (aperture.windowEnd - stop) / granule < fuel := by
        have room : aperture.windowEnd - stop + granule <= aperture.windowEnd - addr := by omega
        have fewer := Nat.div_le_div_right (c := granule) room
        rw [Nat.add_div_right _ stride] at fewer
        omega
      have later := @ih stop { aperture with
        next := stop, free := freeInsert aperture.free addr len } again smaller
      simp only
      rw [later]

theorem Bumped.kept {before : SharedAperture} {first liveLen parked : Nat}
    {backing : BackingObject} {source : Option Nat}
    {result : SharedAperture × Option (Nat × Bool)}
    (bumped : Bumped before first len (fun addr => ⟨addr, len, liveLen, backing, source⟩) parked
      result) (valid : before.Valid) (above : before.next <= first) (shows : 0 < liveLen)
    (reserved : liveLen <= len) : Kept before result.1 := by
  have windowEnd_eq : result.1.windowEnd = before.windowEnd := by
    unfold windowEnd
    rw [bumped.base_eq, bumped.size_eq]
  have base_le := valid.base_le
  have next_le := valid.next_le
  have first_le := bumped.first_le
  have covers := bumped.covers
  rcases bumped.ended with ⟨_, live_eq, halted⟩ | ⟨_, live_eq, next_eq, inside, _⟩
  · have cursor : before.next <= result.1.next ∧ result.1.next <= before.windowEnd ∧
        (first < parked -> parked <= before.windowEnd) := by
      rcases halted with ⟨same, next⟩ | ⟨next, high⟩
      · exact ⟨by omega, by omega, by omega⟩
      · exact ⟨by omega, by omega, by omega⟩
    refine ⟨bumped.base_eq, bumped.size_eq, ⟨bumped.coalesced, ?_, ?_, ?_, ?_⟩, cursor.1, ?_⟩
    · intro byte covered
      rw [bumped.base_eq, windowEnd_eq]
      rcases (covers byte).mp covered with old | new
      · exact valid.freeInside byte old
      · have high := cursor.2.2 (by omega)
        omega
    · rw [live_eq, bumped.base_eq, windowEnd_eq]
      exact valid.live
    · rw [bumped.base_eq]
      omega
    · rw [windowEnd_eq]
      exact cursor.2.1
    · intro byte accounted
      unfold Accounted Owned at accounted ⊢
      rw [live_eq, covers byte]
      tauto
  · refine ⟨bumped.base_eq, bumped.size_eq, ⟨bumped.coalesced, ?_, ?_, ?_, ?_⟩, by omega, ?_⟩
    · intro byte covered
      rw [bumped.base_eq, windowEnd_eq]
      rcases (covers byte).mp covered with old | new
      · exact valid.freeInside byte old
      · omega
    · intro other listed
      rw [live_eq] at listed
      rw [bumped.base_eq, windowEnd_eq]
      rcases List.mem_append.mp listed with old | new
      · exact valid.live other old
      · rw [List.mem_singleton.mp new]
        exact ⟨shows, reserved, by simp only; omega, by simp only; omega⟩
    · rw [bumped.base_eq]
      omega
    · rw [windowEnd_eq]
      omega
    · intro byte accounted
      unfold Accounted Owned at accounted ⊢
      rw [live_eq, ownedBy_append, covers byte]
      tauto

/-! ## The whole allocation -/

/-- What an allocation can do: fail without a change, take a free range, or run
the bump loop from the cursor rounded up. -/
theorem alloc_cases (valid : aperture.Valid) (liveLen : Nat) (backing : BackingObject)
    (source : Option Nat) (avoid : Nat -> Nat -> Bool) :
    (aperture.allocSourcedWithReuseAvoiding liveLen backing source avoid = (aperture, none)) ∨
    ∃ len, 0 < liveLen ∧ alignUp liveLen granule = some len ∧
      ((∃ addr, (aperture.allocSourcedWithReuseAvoiding liveLen backing source avoid).2 =
            some (addr, true) ∧
          Reused aperture ⟨addr, len, liveLen, backing, source⟩
            (aperture.allocSourcedWithReuseAvoiding liveLen backing source avoid).1) ∨
        (aperture.findReusable len avoid 0 aperture.free = some none ∧
          ∃ first parked, alignUp aperture.next granule = some first ∧
            Bumped aperture first len (fun addr => ⟨addr, len, liveLen, backing, source⟩) parked
              (aperture.allocSourcedWithReuseAvoiding liveLen backing source avoid))) := by
  unfold allocSourcedWithReuseAvoiding
  by_cases zero : liveLen = 0
  · rw [if_pos zero]
    exact .inl rfl
  rw [if_neg zero]
  cases rounded : alignUp liveLen granule with
  | none => exact .inl rfl
  | some len =>
    have atLeast := le_of_alignUp rounded
    have whole := dvd_of_alignUp granule_pos rounded
    simp only
    rcases searched : aperture.findReusable len avoid 0 aperture.free with _ | _ | ⟨position, addr⟩
    · exact .inl rfl
    · simp only
      cases aligned : alignUp aperture.next granule with
      | none => exact .inl rfl
      | some first =>
        have bumped := bump_spec avoid
          (fun addr => ⟨addr, len, liveLen, backing, source⟩) (by omega : 0 < len) whole
          ((aperture.windowEnd - first) / granule + 1) valid.free
          (dvd_of_alignUp granule_pos aligned)
        rcases bumped with ⟨parked, bumped⟩
        exact .inr ⟨len, Nat.pos_of_ne_zero zero, rfl, .inr ⟨searched, first, parked,
          rfl, bumped⟩⟩
    · rcases findReusable_spec searched with
        ⟨index, region, position_eq, listed, low, high, unowned⟩
      rw [Nat.zero_add] at position_eq
      subst position_eq
      have reused := reuse_spec valid ⟨addr, len, liveLen, backing, source⟩ listed
        low high unowned
      exact .inr ⟨len, Nat.pos_of_ne_zero zero, rfl, .inl ⟨addr, reused⟩⟩

theorem alloc_kept (valid : aperture.Valid) (liveLen : Nat) (backing : BackingObject)
    (source : Option Nat) (avoid : Nat -> Nat -> Bool) :
    Kept aperture (aperture.allocSourcedWithReuseAvoiding liveLen backing source avoid).1 := by
  rcases alloc_cases valid liveLen backing source avoid with
    same | ⟨len, shows, rounded, ⟨addr, _, reused⟩ | ⟨_, first, parked, aligned, bumped⟩⟩
  · rw [same]
    exact .refl valid
  · exact reused.kept valid shows (le_of_alignUp rounded)
  · exact bumped.kept valid (le_of_alignUp aligned) shows (le_of_alignUp rounded)

theorem alloc_restore (valid : aperture.Valid) (liveLen : Nat) (backing : BackingObject)
    (source : Option Nat) (avoid : Nat -> Nat -> Bool) :
    (aperture.allocSourcedWithReuseAvoiding liveLen backing source avoid).1.identityRestore =
      aperture.identityRestore := by
  rcases alloc_cases valid liveLen backing source avoid with
    same | ⟨len, shows, rounded, ⟨addr, _, reused⟩ | ⟨_, first, parked, aligned, bumped⟩⟩
  · rw [same]
  · exact reused.restore_eq
  · exact bumped.restore_eq

end SharedAperture

end Aperture
end Carrick
