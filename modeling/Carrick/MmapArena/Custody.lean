import Carrick.Foundation.Run
import Carrick.MmapArena.Placement

namespace Carrick
namespace MmapArena

open Foundation

/-!
# Custody of the arena window over whole runs

A run interleaves placement calls, arena unmaps, protection upgrades and edits
of the address-space rows by other system calls.  Its history decides which
arena addresses are live: granted, and not unmapped since.  `Custody` relates
that set to the cursor and the free list, and `Partition` strengthens it to
an exact partition of the window.

`HostArena.release` parks every range that does not end exactly at the cursor,
also one that reaches past it, and the hint path moves the cursor without
parking what it skips.  Custody therefore survives runs whose unmaps stay at
or below the cursor, and the partition also needs hints that do not skip.
-/

inductive Errno where
  | einval
  | enomem
  deriving DecidableEq

/-- The arena arm of `munmap`: the range is neither shared, overlaid nor
aliased, so the alignment, length and window checks are all it has to pass. -/
def munmapServed (mem : MemState) (address length : Nat) : Except Errno MemState :=
  if address % linuxPageSize ≠ 0 then .error .einval
  else if length = 0 then .error .einval
  else
    match alignUp length linuxPageSize with
    | none => .error .enomem
    | some alignedLen =>
      if rangeWithin address length mem.layout.mmapBase mem.layout.mmapSize then
        .ok { mem with arena := mem.arena.release address alignedLen }
      else .error .einval

/-- The watermark edit of a successful `mprotect` of an arena range. -/
def mprotectServed (mem : MemState) (address length prot : Nat) : MemState :=
  if rangeWithin address length mem.layout.mmapBase mem.layout.mmapSize &&
      decide (prot &&& linuxProtWrite ≠ 0) then
    match checkedAdd address length with
    | some stop => mem.raiseWritableHigh stop
    | none => mem
  else mem

inductive Event where
  | granted (request : MmapRequest) (address : Nat) (reused : Bool)
  | refused (request : MmapRequest)
  | unmapped (address alignedLen : Nat)
  | reprotected (address length prot : Nat)
  | observed (rows : AddressSpaceRows)

/-- The lengths that reach placement: `mmap` rejects zero and rounds up. -/
def MmapRequest.PageLength (request : MmapRequest) : Prop :=
  0 < request.length ∧ linuxPageSize ∣ request.length

instance (request : MmapRequest) : Decidable request.PageLength :=
  inferInstanceAs (Decidable (_ ∧ _))

/-- One call of the run, with its answer recorded in the event. -/
def step (before : MemState) (event : Event) (after : MemState) : Prop :=
  match event with
  | .granted request address reused => request.PageLength ∧
      nextMmapAddressInner before request = (some (address, reused), after)
  | .refused request => request.PageLength ∧
      nextMmapAddressInner before request = (none, after)
  | .unmapped address alignedLen => ∃ length, alignUp length linuxPageSize = some alignedLen ∧
      munmapServed before address length = .ok after
  | .reprotected address length prot => after = mprotectServed before address length prot
  | .observed rows => after = { before with rows := rows }

variable {mem : MemState} {request : MmapRequest} {address : Nat}

theorem step_granted (pages : request.PageLength) {reused : Bool}
    (answered : (nextMmapAddressInner mem request).1 = some (address, reused)) :
    step mem (.granted request address reused) (nextMmapAddressInner mem request).2 :=
  ⟨pages, Prod.ext answered rfl⟩

theorem step_unmapped {len : Nat} (aligned : address % linuxPageSize = 0) (positive : len ≠ 0)
    (rounded : alignUp len linuxPageSize = some len)
    (inside : rangeWithin address len mem.layout.mmapBase mem.layout.mmapSize = true) :
    step mem (.unmapped address len) { mem with arena := mem.arena.release address len } := by
  refine ⟨len, rounded, ?_⟩
  unfold munmapServed
  rw [if_neg (not_not.mpr aligned), if_neg positive, rounded]
  exact if_pos inside

def starts (layout : MemoryLayout) (mem : MemState) : Prop :=
  mem = MemState.newWithLayout layout

/-- The arena addresses granted and not unmapped since; the history is
newest first. -/
def Live (layout : MemoryLayout) : List Event -> Nat -> Prop
  | [], _ => False
  | .granted request granted _ :: history, address =>
    Live layout history address ∨ (layout.inArena granted request.length ∧
      granted <= address ∧ address < granted + request.length)
  | .unmapped start alignedLen :: history, address =>
    Live layout history address ∧ ¬ (start <= address ∧ address < start + alignedLen)
  | .refused _ :: history, address => Live layout history address
  | .reprotected _ _ _ :: history, address => Live layout history address
  | .observed _ :: history, address => Live layout history address

/-- Every arena grant of the history without `MAP_FIXED` was disjoint from
the ranges live at that point. -/
def GrantsFresh (layout : MemoryLayout) : List Event -> Prop
  | [] => True
  | .granted request granted _ :: history => GrantsFresh layout history ∧
      (request.fixed = false -> layout.inArena granted request.length ->
        ∀ address, granted <= address -> address < granted + request.length ->
          ¬ Live layout history address)
  | _ :: history => GrantsFresh layout history

/-- The cursor and the free list agree with the live set: the list is sorted
and disjoint, lies below the cursor and meets no live address, and every live
address lies below the cursor. -/
structure Custody (layout : MemoryLayout) (arena : HostArena) (live : Nat -> Prop) : Prop where
  sorted : Sorted arena.freeRegions
  base_le : layout.mmapBase <= arena.mmapNext
  next_le : arena.mmapNext <= layout.mmapBase + layout.mmapSize
  free_below : ∀ address, Free arena.freeRegions address ->
    layout.mmapBase <= address ∧ address < arena.mmapNext
  live_below : ∀ address, live address ->
    layout.mmapBase <= address ∧ address < arena.mmapNext
  live_not_free : ∀ address, live address -> ¬ Free arena.freeRegions address

/-! ## The arena edits -/

theorem MemoryLayout.limit_lt (layout : MemoryLayout) :
    layout.mmapBase + layout.mmapSize + 1 < wordLimit := by
  have below := layout.below_pie
  have small : linuxPieDefaultBase + 1 < wordLimit := by decide
  omega

variable {length : Nat}

theorem MemoryLayout.inArena_iff {layout : MemoryLayout} :
    layout.inArena address length <->
      layout.mmapBase <= address ∧ address + length <= layout.mmapBase + layout.mmapSize := by
  have limit := layout.limit_lt
  unfold MemoryLayout.inArena
  rw [rangeWithin_iff]
  constructor
  · rintro ⟨lower, upper, _⟩
    exact ⟨lower, upper⟩
  · rintro ⟨lower, upper⟩
    exact ⟨lower, upper, by omega, by omega⟩

theorem firstFit_spec {congruence : MmapGrantCongruence} {regions : List Region} {fit : Fit}
    (found : firstFit congruence length regions = some fit) :
    ∃ region, regions[fit.position]? = some region ∧ fit.regionStart = region.1 ∧
      fit.regionEnd = (regionBounds region).2 ∧ fit.regionEnd < wordLimit ∧
      congruence.firstAtOrAfter region.1 = some fit.start ∧
      fit.stop = fit.start + length ∧ fit.stop <= fit.regionEnd := by
  rcases List.exists_of_findSome?_eq_some found with ⟨⟨region, position⟩, member, fitted⟩
  have entry := List.mem_zipIdx_iff_getElem?.mp member
  rcases Option.bind_eq_some_iff.mp fitted with ⟨start, congruent, fitted⟩
  rcases Option.bind_eq_some_iff.mp fitted with ⟨regionEnd, ended, fitted⟩
  rcases Option.bind_eq_some_iff.mp fitted with ⟨stop, stopped, fitted⟩
  have endParts := checkedAdd_eq_some_iff.mp ended
  have stopParts := checkedAdd_eq_some_iff.mp stopped
  split at fitted
  · cases fitted
    have total : region.1 + region.2 = regionEnd := endParts.1
    refine ⟨region, entry, rfl, ?_, endParts.2, congruent, stopParts.1.symm, by assumption⟩
    unfold regionBounds
    rw [saturatingAdd_of_lt (by omega)]
    exact total.symm
  · cases fitted

/-- Taking a fit removes exactly the granted range, which was free. -/
theorem takeFit_spec {congruence : MmapGrantCongruence} {regions : List Region}
    (sorted : Sorted regions) {fit : Fit} (found : firstFit congruence length regions = some fit) :
    Sorted (takeFit regions fit) ∧
      (∀ address, Free (takeFit regions fit) address <->
        Free regions address ∧ ¬ (fit.start <= address ∧ address < fit.stop)) ∧
      ∀ address, fit.start <= address -> address < fit.stop -> Free regions address := by
  rcases firstFit_spec found with
    ⟨region, entry, regionStart, regionEnd, inRange, congruent, stop, upper⟩
  have lower := MmapGrantCongruence.le_firstAtOrAfter congruent
  have member : region ∈ regions := List.mem_of_getElem? entry
  have erased := eraseIdx_spec sorted entry
  have inEntry : ∀ address, region.1 <= address -> address < (regionBounds region).2 ->
      Free regions address := fun address first last => ⟨region, member, first, last⟩
  -- The slack below the grant, then the remainder above it, return to the list.
  have slack : Sorted (if fit.regionStart < fit.start then
        freeRegionsInsert (regions.eraseIdx fit.position) fit.regionStart
          (fit.start - fit.regionStart) else regions.eraseIdx fit.position) ∧
      ∀ address, Free (if fit.regionStart < fit.start then
        freeRegionsInsert (regions.eraseIdx fit.position) fit.regionStart
          (fit.start - fit.regionStart) else regions.eraseIdx fit.position) address <->
        Free (regions.eraseIdx fit.position) address ∨
          (region.1 <= address ∧ address < fit.start) := by
    by_cases parked : fit.regionStart < fit.start
    · rw [if_pos parked]
      have inserted := freeRegionsInsert_spec erased.1
        (by omega : 0 < fit.start - fit.regionStart)
        (by omega : fit.regionStart + (fit.start - fit.regionStart) < wordLimit)
      refine ⟨inserted.1, fun address => ?_⟩
      rw [inserted.2 address]
      have total : fit.regionStart + (fit.start - fit.regionStart) = fit.start := by omega
      rw [total, regionStart]
    · rw [if_neg parked]
      refine ⟨erased.1, fun address => ⟨.inl, ?_⟩⟩
      rintro (kept | impossible)
      · exact kept
      · omega
  have computed : ∀ address, Free (takeFit regions fit) address <->
      Free (regions.eraseIdx fit.position) address ∨ (region.1 <= address ∧ address < fit.start) ∨
        (fit.stop <= address ∧ address < (regionBounds region).2) := by
    intro address
    unfold takeFit
    by_cases parked : fit.stop < fit.regionEnd
    · simp only [if_pos parked]
      have inserted := freeRegionsInsert_spec slack.1
        (by omega : 0 < fit.regionEnd - fit.stop)
        (by omega : fit.stop + (fit.regionEnd - fit.stop) < wordLimit)
      rw [inserted.2 address, slack.2 address, or_assoc]
      have total : fit.stop + (fit.regionEnd - fit.stop) = (regionBounds region).2 := by omega
      rw [total]
    simp only [if_neg parked]
    rw [slack.2 address]
    constructor
    · rintro (kept | parkedBelow)
      · exact .inl kept
      · exact .inr (.inl parkedBelow)
    · rintro (kept | parkedBelow | impossible)
      · exact .inl kept
      · exact .inr parkedBelow
      · omega
  refine ⟨?_, ?_, ?_⟩
  · unfold takeFit
    by_cases parked : fit.stop < fit.regionEnd
    · simp only [if_pos parked]
      exact (freeRegionsInsert_spec slack.1 (by omega : 0 < fit.regionEnd - fit.stop)
        (by omega : fit.stop + (fit.regionEnd - fit.stop) < wordLimit)).1
    · simp only [if_neg parked]
      exact slack.1
  · intro address
    rw [computed address, erased.2 address]
    constructor
    · rintro (⟨free, outside⟩ | below | above)
      · exact ⟨free, by omega⟩
      · exact ⟨inEntry address (by omega) (by omega), by omega⟩
      · exact ⟨inEntry address (by omega) (by omega), by omega⟩
    · rintro ⟨free, outside⟩
      by_cases inside : region.1 <= address ∧ address < (regionBounds region).2
      · exact .inr (by omega)
      · exact .inl ⟨free, inside⟩
  · intro address first last
    exact inEntry address (by omega) (by omega)

/-- A fixed claim removes its own range and adds the skipped one. -/
theorem claimFixed_spec {arena : HostArena} (sorted : Sorted arena.freeRegions) {requested : Nat}
    (inRange : requested + length < wordLimit) :
    Sorted (arena.claimFixed requested length (requested + length)).freeRegions ∧
      (arena.claimFixed requested length (requested + length)).mmapNext =
        max arena.mmapNext (requested + length) ∧
      ∀ address,
        Free (arena.claimFixed requested length (requested + length)).freeRegions address <->
          (Free arena.freeRegions address ∧
            ¬ (requested <= address ∧ address < requested + length)) ∨
          (arena.mmapNext <= address ∧ address < requested) := by
  have removed := freeRegionsRemoveRange_spec sorted inRange
  unfold HostArena.claimFixed
  by_cases past : arena.mmapNext < requested + length
  · simp only [if_pos past]
    by_cases skips : arena.mmapNext < requested
    · have inserted := freeRegionsInsert_spec removed.1
        (by omega : 0 < requested - arena.mmapNext)
        (by omega : arena.mmapNext + (requested - arena.mmapNext) < wordLimit)
      have total : arena.mmapNext + (requested - arena.mmapNext) = requested := by omega
      rw [if_pos skips]
      refine ⟨inserted.1, by omega, fun address => ?_⟩
      rw [inserted.2 address, removed.2 address, total]
    · rw [if_neg skips]
      refine ⟨removed.1, by omega, fun address => ?_⟩
      rw [removed.2 address]
      exact ⟨.inl, fun either => either.resolve_right (by omega)⟩
  · simp only [if_neg past]
    refine ⟨removed.1, by omega, fun address => ?_⟩
    rw [removed.2 address]
    exact ⟨.inl, fun either => either.resolve_right (by omega)⟩

theorem release_cases (arena : HostArena) {len : Nat} (inRange : address + len < wordLimit) :
    (address + len = arena.mmapNext ∧
      (arena.release address len).mmapNext = (lowerMmapNext arena.freeRegions address).1 ∧
      (arena.release address len).freeRegions = (lowerMmapNext arena.freeRegions address).2) ∨
    (address + len ≠ arena.mmapNext ∧
      (arena.release address len).mmapNext = arena.mmapNext ∧
      (arena.release address len).freeRegions =
        freeRegionsInsert arena.freeRegions address len) := by
  unfold HostArena.release
  rw [checkedAdd_of_lt inRange]
  by_cases atCursor : address + len = arena.mmapNext
  · rw [if_pos (congrArg some atCursor)]
    exact .inl ⟨atCursor, rfl, rfl⟩
  · rw [if_neg (fun same => atCursor (Option.some.inj same))]
    exact .inr ⟨atCursor, rfl, rfl⟩

/-! ## Custody along one step -/

namespace Custody

variable {layout : MemoryLayout} {arena : HostArena} {live : Nat -> Prop}

theorem new (layout : MemoryLayout) : Custody layout (HostArena.new layout) (fun _ => False) where
  sorted := Ordered.nil
  base_le := le_rfl
  next_le := Nat.le_add_right _ _
  free_below := fun address covered => False.elim (covers_nil address covered)
  live_below := fun _ impossible => False.elim impossible
  live_not_free := fun _ impossible => False.elim impossible

theorem congr {other : Nat -> Prop} (custody : Custody layout arena live)
    (same : ∀ address, other address -> live address) : Custody layout arena other where
  sorted := custody.sorted
  base_le := custody.base_le
  next_le := custody.next_le
  free_below := custody.free_below
  live_below := fun address member => custody.live_below address (same address member)
  live_not_free := fun address member => custody.live_not_free address (same address member)

theorem claimFixed (custody : Custody layout arena live) {requested : Nat}
    (inside : layout.inArena requested length) :
    Custody layout (arena.claimFixed requested length (requested + length))
      (fun address => live address ∨ (requested <= address ∧ address < requested + length)) := by
  have window := MemoryLayout.inArena_iff.mp inside
  have limit := layout.limit_lt
  have claimed := claimFixed_spec custody.sorted (by omega : requested + length < wordLimit)
  have lower := custody.base_le
  have upper := custody.next_le
  refine ⟨claimed.1, ?_, ?_, ?_, ?_, ?_⟩
  · rw [claimed.2.1]
    omega
  · rw [claimed.2.1]
    omega
  · intro address free
    rw [claimed.2.1]
    rcases (claimed.2.2 address).mp free with ⟨kept, _⟩ | skipped
    · have := custody.free_below address kept
      omega
    · omega
  · intro address member
    rw [claimed.2.1]
    rcases member with old | new
    · have := custody.live_below address old
      omega
    · omega
  intro address member free
  rcases (claimed.2.2 address).mp free with ⟨kept, outside⟩ | skipped
  · rcases member with old | new
    · exact custody.live_not_free address old kept
    · exact outside new
  · rcases member with old | new
    · have := custody.live_below address old
      omega
    · omega

/-- A bump grant: the cursor moves to its end and the skipped range between
the old cursor and the grant may join the free list. -/
theorem bump (custody : Custody layout arena live) {cursor start : Nat} {parked : List Region}
    (above : arena.mmapNext <= cursor) (ordered : cursor <= start)
    (inside : layout.inArena start length) (sorted : Sorted parked)
    (free_iff : ∀ address, Free parked address -> Free arena.freeRegions address ∨ (cursor <=
      address ∧ address < start)) :
    Custody layout { arena with mmapNext := start + length, freeRegions := parked }
      (fun address => live address ∨ (start <= address ∧ address < start + length)) := by
  have window := MemoryLayout.inArena_iff.mp inside
  have lower := custody.base_le
  refine ⟨sorted, ?_, window.2, ?_, ?_, ?_⟩
  · show layout.mmapBase <= start + length
    omega
  · intro address free
    show layout.mmapBase <= address ∧ address < start + length
    rcases free_iff address free with old | skipped
    · have := custody.free_below address old
      omega
    · omega
  · intro address member
    show layout.mmapBase <= address ∧ address < start + length
    rcases member with old | new
    · have := custody.live_below address old
      omega
    · omega
  intro address member free
  rcases free_iff address free with old | skipped
  · rcases member with live | new
    · exact custody.live_not_free address live old
    · have := custody.free_below address old
      omega
  · rcases member with live | new
    · have := custody.live_below address live
      omega
    · omega

theorem takeFit (custody : Custody layout arena live) {congruence : MmapGrantCongruence}
    {fit : Fit} (found : firstFit congruence length arena.freeRegions = some fit) :
    Custody layout { arena with freeRegions := MmapArena.takeFit arena.freeRegions fit }
      (fun address => live address ∨ (fit.start <= address ∧ address < fit.start + length)) := by
  have taken := takeFit_spec custody.sorted found
  rcases firstFit_spec found with ⟨_, _, _, _, _, _, stop, _⟩
  refine ⟨taken.1, custody.base_le, custody.next_le, ?_, ?_, ?_⟩
  · intro address free
    exact custody.free_below address ((taken.2.1 address).mp free).1
  · intro address member
    rcases member with old | new
    · exact custody.live_below address old
    · exact custody.free_below address (taken.2.2 address new.1 (by omega))
  intro address member free
  have kept := (taken.2.1 address).mp free
  rcases member with old | new
  · exact custody.live_not_free address old kept.1
  · exact kept.2 ⟨new.1, by omega⟩

/-- An unmap that ends at or below the cursor keeps custody, whatever part of
its range was live, free or neither. -/
theorem release (custody : Custody layout arena live) {address len : Nat}
    (positive : 0 < len) (lower : layout.mmapBase <= address)
    (below : address + len <= arena.mmapNext) :
    Custody layout (arena.release address len)
      (fun other => live other ∧ ¬ (address <= other ∧ other < address + len)) := by
  have limit := layout.limit_lt
  have upper := custody.next_le
  rcases release_cases arena (by omega : address + len < wordLimit) with
    ⟨atCursor, next, regions⟩ | ⟨_, next, regions⟩
  · have lowered := lowerMmapNext_spec custody.sorted (by omega : address + 1 < wordLimit)
    have newLower : layout.mmapBase <= (lowerMmapNext arena.freeRegions address).1 := by
      by_cases absorbed : (lowerMmapNext arena.freeRegions address).1 < address
      · exact (custody.free_below _ (lowered.absorbed_free _ le_rfl absorbed)).1
      · omega
    have newUpper := lowered.lower
    refine ⟨regions ▸ lowered.sorted, next ▸ newLower, ?_, ?_, ?_, ?_⟩
    · rw [next]
      omega
    · intro other free
      rw [regions] at free
      have kept := (lowered.free_iff other).mp free
      rw [next]
      exact ⟨(custody.free_below other kept.1).1, kept.2⟩
    · rintro other ⟨member, outside⟩
      have old := custody.live_below other member
      rw [next]
      refine ⟨old.1, Nat.lt_of_not_le ?_⟩
      intro absorbed
      exact custody.live_not_free other member
        (lowered.absorbed_free other absorbed (by omega))
    · rintro other ⟨member, outside⟩ free
      rw [regions] at free
      exact custody.live_not_free other member ((lowered.free_iff other).mp free).1
  · have inserted := freeRegionsInsert_spec custody.sorted positive
      (by omega : address + len < wordLimit)
    refine ⟨regions ▸ inserted.1, next ▸ custody.base_le, next ▸ custody.next_le, ?_, ?_, ?_⟩
    · intro other free
      rw [regions] at free
      rw [next]
      rcases (inserted.2 other).mp free with old | new
      · exact custody.free_below other old
      · omega
    · rintro other ⟨member, _⟩
      rw [next]
      exact custody.live_below other member
    rintro other ⟨member, outside⟩ free
    rw [regions] at free
    rcases (inserted.2 other).mp free with old | new
    · exact custody.live_not_free other member old
    · exact outside new

end Custody

/-- The addresses a placement answer adds to the live set. -/
def grantedBy (layout : MemoryLayout) (request : MmapRequest) (answer : Option (Nat × Bool))
    (address : Nat) : Prop :=
  ∃ start reused, answer = some (start, reused) ∧ layout.inArena start request.length ∧
    start <= address ∧ address < start + request.length

variable {after : MemState}

theorem Placed.layout_eq {answer : Option (Nat × Bool)} (placed : Placed mem request answer after) :
    after.layout = mem.layout := by
  cases placed with
  | outside => rfl
  | atFixed => dsimp only; split <;> rfl
  | atHint => split <;> rfl
  | atFit => rfl
  | atCursor => split <;> rfl

theorem raised_arena (condition : Bool) (mem : MemState) (stop : Nat) :
    (if condition = true then mem.raiseWritableHigh stop else mem).arena = mem.arena := by
  split <;> rfl

/-- A placement call keeps custody of the live set grown by its arena grant,
and a grant without `MAP_FIXED` was not live before. -/
theorem Placed.custody {answer : Option (Nat × Bool)} (placed : Placed mem request answer after)
    {live : Nat -> Prop} (custody : Custody mem.layout mem.arena live) :
    Custody mem.layout after.arena
        (fun address => live address ∨ grantedBy mem.layout request answer address) ∧
      (request.fixed = false -> ∀ address, grantedBy mem.layout request answer address ->
        ¬ live address) := by
  cases placed with
  | outside answer elsewhere =>
    have nothing : ∀ address, ¬ grantedBy mem.layout request answer address := by
      rintro address ⟨start, reused, same, inside, _⟩
      exact (elsewhere start reused same).1 inside
    exact ⟨custody.congr (fun address either => either.resolve_right (nothing address)),
      fun _ address granted => False.elim (nothing address granted)⟩
  | atFixed isFixed aligned inside =>
    refine ⟨(custody.claimFixed inside).congr ?_, ?_⟩
    · rintro address (old | ⟨start, reused, same, _, new⟩)
      · exact .inl old
      · cases same
        exact .inr new
    · intro notFixed
      rw [isFixed] at notFixed
      cases notFixed
  | atHint notFixed nonzero aligned inside above =>
    rw [raised_arena]
    refine ⟨(custody.bump above le_rfl inside custody.sorted
      (fun _ free => .inl free)).congr ?_, ?_⟩
    · rintro address (old | ⟨start, reused, same, _, new⟩)
      · exact .inl old
      · cases same
        exact .inr new
    · rintro _ address ⟨start, reused, same, _, new⟩ live
      cases same
      have := custody.live_below address live
      omega
  | atFit notFixed unhinted fits fit found =>
    refine ⟨(custody.takeFit found).congr ?_, ?_⟩
    · rintro address (old | ⟨start, reused, same, _, new⟩)
      · exact .inl old
      · cases same
        exact .inr new
    rintro _ address ⟨start, reused, same, _, new⟩ live
    cases same
    rcases firstFit_spec found with ⟨_, _, _, _, _, _, stop, _⟩
    exact custody.live_not_free address live
      ((takeFit_spec custody.sorted found).2.2 address new.1 (by omega))
  | atCursor notFixed cursor address rounded congruent inside =>
    rw [raised_arena]
    have above := le_of_alignUp rounded
    have ordered := MmapGrantCongruence.le_firstAtOrAfter congruent
    have window := MemoryLayout.inArena_iff.mp inside
    have limit := mem.layout.limit_lt
    have parked : Sorted (if cursor < address then
          freeRegionsInsert mem.arena.freeRegions cursor (address - cursor)
          else mem.arena.freeRegions) ∧
        ∀ other, Free (if cursor < address then
          freeRegionsInsert mem.arena.freeRegions cursor (address - cursor)
          else mem.arena.freeRegions) other ->
        Free mem.arena.freeRegions other ∨ (cursor <= other ∧ other < address) := by
      split
      · rename_i skips
        have inserted := freeRegionsInsert_spec custody.sorted
          (by omega : 0 < address - cursor) (by omega : cursor + (address - cursor) < wordLimit)
        refine ⟨inserted.1, fun other free => ?_⟩
        rcases (inserted.2 other).mp free with old | new
        · exact .inl old
        · exact .inr (by omega)
      · exact ⟨custody.sorted, fun other free => .inl free⟩
    refine ⟨(custody.bump above ordered inside parked.1 parked.2).congr ?_, ?_⟩
    · rintro other (old | ⟨start, reused, same, _, new⟩)
      · exact .inl old
      · cases same
        exact .inr new
    · rintro _ other ⟨start, reused, same, _, new⟩ live
      cases same
      have := custody.live_below other live
      omega

theorem munmapServed_ok {alignedLen : Nat}
    (rounded : alignUp length linuxPageSize = some alignedLen)
    (served : munmapServed mem address length = .ok after) :
    linuxPageSize ∣ address ∧ 0 < alignedLen ∧ mem.layout.mmapBase <= address ∧
      after = { mem with arena := mem.arena.release address alignedLen } := by
  unfold munmapServed at served
  split at served
  · cases served
  rename_i aligned
  split at served
  · cases served
  rename_i nonzero
  rw [rounded] at served
  simp only at served
  split at served
  · rename_i inside
    cases served
    have lower := le_of_alignUp rounded
    exact ⟨Nat.dvd_of_mod_eq_zero (not_not.mp aligned), by omega,
      (rangeWithin_iff.mp inside).1, rfl⟩
  · cases served

theorem mprotectServed_arena (mem : MemState) (address length prot : Nat) :
    (mprotectServed mem address length prot).arena = mem.arena ∧
      (mprotectServed mem address length prot).layout = mem.layout := by
  unfold mprotectServed
  split
  · split <;> exact ⟨rfl, rfl⟩
  · exact ⟨rfl, rfl⟩

/-- An unmap step whose range ends at or below the cursor. -/
def UnmapsBelowCursor (before : MemState) : Event -> Prop
  | .unmapped address alignedLen => address + alignedLen <= before.arena.mmapNext
  | _ => True

theorem step_layout {before : MemState} {event : Event} (taken : step before event after) :
    after.layout = before.layout := by
  cases event with
  | granted request address reused =>
    have placed := nextMmapAddressInner_placed before request taken.1.1
    rw [taken.2] at placed
    exact placed.layout_eq
  | refused request =>
    have placed := nextMmapAddressInner_placed before request taken.1.1
    rw [taken.2] at placed
    exact placed.layout_eq
  | unmapped address alignedLen =>
    rcases taken with ⟨length, rounded, served⟩
    rw [(munmapServed_ok rounded served).2.2.2]
  | reprotected address length prot =>
    rw [show after = _ from taken]
    exact (mprotectServed_arena before address length prot).2
  | observed rows =>
    rw [show after = _ from taken]

theorem run_layout {layout : MemoryLayout} {guarded : MemState -> Event -> MemState -> Prop}
    (weaker : ∀ before event after, guarded before event after -> step before event after)
    {history : List Event} (run : Run (starts layout) guarded history mem) :
    mem.layout = layout := by
  refine run.state_invariant (fun mem => mem.layout = layout) ?_ ?_
  · rintro mem rfl
    rfl
  · intro before event after same taken
    exact (step_layout (weaker _ _ _ taken)).trans same

/-- One guarded step keeps custody and the freshness of the history. -/
theorem step_custody {layout : MemoryLayout} {history : List Event} {before : MemState}
    {event : Event} (sameLayout : before.layout = layout)
    (custody : Custody layout before.arena (Live layout history))
    (fresh : GrantsFresh layout history) (taken : step before event after)
    (guarded : UnmapsBelowCursor before event) :
    Custody layout after.arena (Live layout (event :: history)) ∧
      GrantsFresh layout (event :: history) := by
  subst sameLayout
  cases event with
  | granted request address reused =>
    have placed := nextMmapAddressInner_placed before request taken.1.1
    rw [taken.2] at placed
    have kept := placed.custody custody
    refine ⟨kept.1.congr ?_, fresh, ?_⟩
    · rintro other (old | ⟨inside, new⟩)
      · exact .inl old
      · exact .inr ⟨address, reused, rfl, inside, new⟩
    · intro notFixed inside other lower upper
      exact kept.2 notFixed other ⟨address, reused, rfl, inside, lower, upper⟩
  | refused request =>
    have placed := nextMmapAddressInner_placed before request taken.1.1
    rw [taken.2] at placed
    exact ⟨(placed.custody custody).1.congr (fun _ old => .inl old), fresh⟩
  | unmapped address alignedLen =>
    rcases taken with ⟨length, rounded, served⟩
    rcases munmapServed_ok rounded served with ⟨_, positive, lower, same⟩
    rw [same]
    exact ⟨custody.release positive lower guarded, fresh⟩
  | reprotected address length prot =>
    rw [show after = _ from taken, (mprotectServed_arena before address length prot).1]
    exact ⟨custody, fresh⟩
  | observed rows =>
    rw [show after = _ from taken]
    exact ⟨custody, fresh⟩

/-- Over every run whose unmaps end at or below the cursor, no arena grant
without `MAP_FIXED` overlaps a range granted earlier and not unmapped since,
and the cursor and free list keep custody of the live set. -/
theorem grants_fresh_of_unmaps_below_cursor (layout : MemoryLayout) {history : List Event}
    {mem : MemState}
    (run : Run (starts layout)
      (fun before event after => step before event after ∧ UnmapsBelowCursor before event)
      history mem) :
    GrantsFresh layout history ∧ Custody layout mem.arena (Live layout history) := by
  refine run.invariant (fun history mem =>
    GrantsFresh layout history ∧ Custody layout mem.arena (Live layout history)) ?_ ?_
  · rintro mem rfl
    exact ⟨trivial, Custody.new layout⟩
  · intro history before event after earlier held taken
    have sameLayout := run_layout (fun _ _ _ guarded => guarded.1) earlier
    have kept := step_custody sameLayout held.2 held.1 taken.1 taken.2
    exact ⟨kept.2, kept.1⟩

/-- An anonymous request without a hint and without a congruence. -/
def MmapRequest.anonymous (length : Nat) : MmapRequest where
  requested := 0
  length := length
  prot := linuxProtWrite
  flags := 0
  congruence := .any
  userCeiling := linuxHighVaThreshold

/-- The unmap of one granted page ends at the cursor. -/
theorem grants_fresh_after_one_page :
    GrantsFresh .hvfDefault
      [.granted (.anonymous 0x1000) 0x6000000000 true, .unmapped 0x6000000000 0x1000,
        .granted (.anonymous 0x1000) 0x6000000000 false] := by
  have page : (MmapRequest.anonymous 0x1000).PageLength := by decide
  refine (grants_fresh_of_unmaps_below_cursor .hvfDefault
    (.next (.next (.next (.initial rfl) ⟨step_granted page ?_, trivial⟩)
      ⟨step_unmapped ?_ ?_ ?_ ?_, Nat.le_of_ble_eq_true ?_⟩)
      ⟨step_granted page ?_, trivial⟩)).1 <;> decide

/-- An unmap that reaches one page past the cursor is parked whole.  The free
list then hands out a range that straddles the cursor, and the cursor hands
out its upper page once more. -/
theorem unmap_past_cursor_grants_twice :
    ∃ history mem, Run (starts .hvfDefault) step history mem ∧
      ¬ GrantsFresh .hvfDefault history := by
  have page : (MmapRequest.anonymous 0x1000).PageLength := by decide
  have pages : (MmapRequest.anonymous 0x2000).PageLength := by decide
  refine ⟨[.granted (.anonymous 0x1000) 0x6000001000 false,
      .granted (.anonymous 0x2000) 0x6000000000 true, .unmapped 0x6000000000 0x2000,
      .granted (.anonymous 0x1000) 0x6000000000 false], _,
    .next (.next (.next (.next (.initial rfl) (step_granted page ?_))
      (step_unmapped ?_ ?_ ?_ ?_)) (step_granted pages ?_)) (step_granted page ?_), ?_⟩
  case refine_8 =>
    rintro ⟨_, fresh⟩
    exact fresh (by decide) (by decide) 0x6000001000 (by decide) (by decide)
      (.inr ⟨by decide, by decide, by decide⟩)
  all_goals decide

end MmapArena
end Carrick
