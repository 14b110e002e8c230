import Carrick.MmapArena.Custody

namespace Carrick
namespace MmapArena

open Foundation

/-!
# The arena window as an exact partition

Custody leaves room for lost addresses: neither live, nor free, nor above the
cursor.  `Partition` excludes them, and it also says that no free address lies
directly below the cursor, so that the cursor is back at the base as soon as
nothing is live.

A `MAP_FIXED` grant past the cursor parks the range it skips, an advisory hint
past the cursor does not.  An unmap that lowers the cursor absorbs the free
entries that end there, but it only truncates an entry that straddles the new
cursor.  `KeepsSpace` names the steps that do neither of the two.
-/

/-- Every address of the window below the cursor is live or free, both sets
consist of whole pages, and the cursor is as low as the live set allows. -/
structure Partition (layout : MemoryLayout) (arena : HostArena) (live : Nat -> Prop) : Prop
    extends Custody layout arena live where
  next_aligned : linuxPageSize ∣ arena.mmapNext
  starts_aligned : ∀ region ∈ arena.freeRegions, linuxPageSize ∣ region.1
  live_paged : ∀ first second, first / linuxPageSize = second / linuxPageSize ->
    live first -> live second
  covered : ∀ address, layout.mmapBase <= address -> address < arena.mmapNext ->
    live address ∨ Free arena.freeRegions address
  tight : ∀ address, address + 1 = arena.mmapNext -> ¬ Free arena.freeRegions address

/-- Two addresses of one page lie on the same side of every page boundary. -/
theorem boundary_le_iff {boundary first second : Nat} (aligned : linuxPageSize ∣ boundary)
    (samePage : first / linuxPageSize = second / linuxPageSize) :
    boundary <= first <-> boundary <= second := by
  rcases aligned with ⟨count, rfl⟩
  unfold linuxPageSize at *
  omega

theorem range_paged {start length first second : Nat} (startAligned : linuxPageSize ∣ start)
    (lengthAligned : linuxPageSize ∣ length)
    (samePage : first / linuxPageSize = second / linuxPageSize)
    (inside : start <= first ∧ first < start + length) :
    start <= second ∧ second < start + length := by
  have lower := boundary_le_iff startAligned samePage
  have upper := boundary_le_iff (Nat.dvd_add startAligned lengthAligned) samePage
  omega

namespace Partition

variable {layout : MemoryLayout} {arena : HostArena} {live : Nat -> Prop}

theorem new (layout : MemoryLayout) :
    Partition layout (HostArena.new layout) (fun _ => False) where
  toCustody := Custody.new layout
  next_aligned := layout.base_aligned
  starts_aligned := nofun
  live_paged := fun _ _ _ impossible => impossible
  covered := by
    intro address lower upper
    have : (HostArena.new layout).mmapNext = layout.mmapBase := rfl
    omega
  tight := fun address _ covered => covers_nil address covered

section Partition

variable (partitioned : Partition layout arena live)

include partitioned

theorem congr {other : Nat -> Prop} (same : ∀ address, other address <-> live address) :
    Partition layout arena other where
  toCustody := partitioned.toCustody.congr (fun address => (same address).mp)
  next_aligned := partitioned.next_aligned
  starts_aligned := partitioned.starts_aligned
  live_paged := by
    intro first second samePage member
    exact (same second).mpr
      (partitioned.live_paged first second samePage ((same first).mp member))
  covered := by
    intro address lower upper
    rcases partitioned.covered address lower upper with member | free
    · exact .inl ((same address).mpr member)
    · exact .inr free
  tight := partitioned.tight

theorem live_paged_grown {start length : Nat} (startAligned : linuxPageSize ∣ start)
    (lengthAligned : linuxPageSize ∣ length) (first second : Nat)
    (samePage : first / linuxPageSize = second / linuxPageSize) :
    (live first ∨ (start <= first ∧ first < start + length)) ->
      (live second ∨ (start <= second ∧ second < start + length)) := by
  rintro (old | new)
  · exact .inl (partitioned.live_paged first second samePage old)
  · exact .inr (range_paged startAligned lengthAligned samePage new)

theorem claimFixed {requested length : Nat} (positive : 0 < length)
    (requestedAligned : linuxPageSize ∣ requested) (lengthAligned : linuxPageSize ∣ length)
    (inside : layout.inArena requested length) :
    Partition layout (arena.claimFixed requested length (requested + length))
      (fun address => live address ∨ (requested <= address ∧ address < requested + length)) := by
  have window := MemoryLayout.inArena_iff.mp inside
  have limit := layout.limit_lt
  have inRange : requested + length < wordLimit := by omega
  have claimed := claimFixed_spec partitioned.sorted inRange
  have stopAligned := Nat.dvd_add requestedAligned lengthAligned
  have removedAligned : ∀ region,
      region ∈ freeRegionsRemoveRange arena.freeRegions requested length ->
      linuxPageSize ∣ region.1 :=
    freeRegionsRemoveRange_starts partitioned.starts_aligned
      (by rw [saturatingAdd_of_lt inRange]; exact stopAligned)
  refine ⟨partitioned.toCustody.claimFixed inside, ?_, ?_,
    partitioned.live_paged_grown requestedAligned lengthAligned, ?_, ?_⟩
  · unfold HostArena.claimFixed
    split
    · exact stopAligned
    · exact partitioned.next_aligned
  · unfold HostArena.claimFixed
    split
    · split
      · exact freeRegionsInsert_starts removedAligned partitioned.next_aligned _
      · exact removedAligned
    · exact removedAligned
  · intro address lower upper
    rw [claimed.2.1] at upper
    rw [claimed.2.2 address]
    by_cases claimedAddress : requested <= address ∧ address < requested + length
    · exact .inl (.inr claimedAddress)
    by_cases below : address < arena.mmapNext
    · rcases partitioned.covered address lower below with member | free
      · exact .inl (.inl member)
      · exact .inr (.inl ⟨free, claimedAddress⟩)
    · exact .inr (.inr (by omega))
  · intro address last free
    rw [claimed.2.1] at last
    rcases (claimed.2.2 address).mp free with ⟨kept, outside⟩ | skipped
    · have below := partitioned.free_below address kept
      exact partitioned.tight address (by omega) kept
    · omega

/-- A bump grant at the cursor: the addresses between the cursor and the grant
are parked, so none is lost. -/
theorem bump {start length : Nat} {parked : List Region} (positive : 0 < length)
    (startAligned : linuxPageSize ∣ start) (lengthAligned : linuxPageSize ∣ length)
    (ordered : arena.mmapNext <= start) (inside : layout.inArena start length)
    (sorted : Sorted parked)
    (parkedAligned : ∀ region ∈ parked, linuxPageSize ∣ region.1)
    (free_iff : ∀ address, Free parked address <-> Free arena.freeRegions address ∨ (arena.mmapNext <= address ∧ address < start)) :
    Partition layout { arena with mmapNext := start + length, freeRegions := parked }
      (fun address => live address ∨ (start <= address ∧ address < start + length)) := by
  refine ⟨partitioned.toCustody.bump le_rfl ordered inside sorted
    (fun address => (free_iff address).mp), Nat.dvd_add startAligned lengthAligned, parkedAligned,
    partitioned.live_paged_grown startAligned lengthAligned, ?_, ?_⟩
  · intro address lower upper
    have below : address < start + length := upper
    show _ ∨ Free parked address
    rw [free_iff address]
    by_cases old : address < arena.mmapNext
    · rcases partitioned.covered address lower old with member | free
      · exact .inl (.inl member)
      · exact .inr (.inl free)
    · by_cases skipped : address < start
      · exact .inr (.inr (by omega))
      · exact .inl (.inr (by omega))
  · intro address last free
    have top : address + 1 = start + length := last
    rcases (free_iff address).mp free with old | skipped
    · have := partitioned.free_below address old
      omega
    · omega

theorem takeFit {congruence : MmapGrantCongruence} {length : Nat} {fit : Fit}
    (lengthAligned : linuxPageSize ∣ length)
    (found : firstFit congruence length arena.freeRegions = some fit) :
    Partition layout { arena with freeRegions := MmapArena.takeFit arena.freeRegions fit }
      (fun address => live address ∨ (fit.start <= address ∧ address < fit.start + length)) := by
  have taken := takeFit_spec partitioned.sorted found
  rcases firstFit_spec found with ⟨region, entry, regionStart, _, _, congruent, stop, _⟩
  have regionAligned := partitioned.starts_aligned region (List.mem_of_getElem? entry)
  have startAligned := MmapGrantCongruence.dvd_firstAtOrAfter regionAligned congruent
  have stopAligned : linuxPageSize ∣ fit.stop := stop ▸ Nat.dvd_add startAligned lengthAligned
  have erasedAligned : ∀ other ∈ arena.freeRegions.eraseIdx fit.position,
      linuxPageSize ∣ other.1 := fun other member =>
    partitioned.starts_aligned other (List.mem_of_mem_eraseIdx member)
  refine ⟨partitioned.toCustody.takeFit found, partitioned.next_aligned, ?_,
    partitioned.live_paged_grown startAligned lengthAligned, ?_, ?_⟩
  · have slackAligned : ∀ other ∈ (if fit.regionStart < fit.start then
          freeRegionsInsert (arena.freeRegions.eraseIdx fit.position) fit.regionStart
            (fit.start - fit.regionStart) else arena.freeRegions.eraseIdx fit.position),
        linuxPageSize ∣ other.1 := by
      split
      · exact freeRegionsInsert_starts erasedAligned (regionStart ▸ regionAligned) _
      · exact erasedAligned
    show ∀ other ∈ MmapArena.takeFit arena.freeRegions fit, _
    unfold MmapArena.takeFit
    dsimp only
    by_cases parked : fit.stop < fit.regionEnd
    · rw [if_pos parked]
      exact freeRegionsInsert_starts slackAligned stopAligned _
    · rw [if_neg parked]
      exact slackAligned
  · intro address lower upper
    rcases partitioned.covered address lower upper with member | free
    · exact .inl (.inl member)
    · by_cases granted : fit.start <= address ∧ address < fit.start + length
      · exact .inl (.inr granted)
      · exact .inr ((taken.2.1 address).mpr ⟨free, by omega⟩)
  · intro address last free
    exact partitioned.tight address last ((taken.2.1 address).mp free).1

/-- An unmap that ends at or below the cursor keeps the partition unless it
lowers the cursor into the middle of a free entry. -/
theorem release {address len : Nat} (positive : 0 < len) (addressAligned : linuxPageSize ∣ address)
    (lenAligned : linuxPageSize ∣ len) (lower : layout.mmapBase <= address)
    (below : address + len <= arena.mmapNext)
    (noStraddler : address + len = arena.mmapNext -> ∀ region ∈ arena.freeRegions, region.1 < address -> (regionBounds region).2 <= address) :
    Partition layout (arena.release address len)
      (fun other => live other ∧ ¬ (address <= other ∧ other < address + len)) := by
  have limit := layout.limit_lt
  have upper := partitioned.next_le
  have paged : ∀ first second, first / linuxPageSize = second / linuxPageSize ->
      live first ∧ ¬ (address <= first ∧ first < address + len) ->
      live second ∧ ¬ (address <= second ∧ second < address + len) := by
    rintro first second samePage ⟨member, outside⟩
    refine ⟨partitioned.live_paged first second samePage member, fun inside => outside ?_⟩
    exact range_paged addressAligned lenAligned samePage.symm inside
  rcases release_cases arena (by omega : address + len < wordLimit) with
    ⟨atCursor, next, regions⟩ | ⟨notCursor, next, regions⟩
  · have lowered := lowerMmapNext_spec partitioned.sorted (by omega : address + 1 < wordLimit)
    have aligned := lowerMmapNext_starts partitioned.starts_aligned addressAligned
    refine ⟨partitioned.toCustody.release positive lower below, next ▸ aligned.1,
      regions ▸ aligned.2, paged, ?_, ?_⟩
    · intro other otherLower otherUpper
      rw [next] at otherUpper
      rw [regions, lowered.free_iff other]
      have newUpper := lowered.lower
      rcases partitioned.covered other otherLower (by omega) with member | free
      · exact .inl ⟨member, by omega⟩
      · exact .inr ⟨free, otherUpper⟩
    · intro other last
      rw [next] at last
      rw [regions]
      exact lowered.tight (noStraddler atCursor) other last
  have inserted := freeRegionsInsert_spec partitioned.sorted positive
    (by omega : address + len < wordLimit)
  refine ⟨partitioned.toCustody.release positive lower below, next ▸ partitioned.next_aligned,
    regions ▸ freeRegionsInsert_starts partitioned.starts_aligned addressAligned len, paged,
    ?_, ?_⟩
  · intro other otherLower otherUpper
    rw [next] at otherUpper
    rw [regions, inserted.2 other]
    by_cases unmapped : address <= other ∧ other < address + len
    · exact .inr (.inr unmapped)
    · rcases partitioned.covered other otherLower otherUpper with member | free
      · exact .inl ⟨member, unmapped⟩
      · exact .inr (.inl free)
  · intro other last free
    rw [next] at last
    rw [regions] at free
    rcases (inserted.2 other).mp free with old | new
    · exact partitioned.tight other last old
    · omega

/-- With nothing live the cursor is back at the base and the list is empty. -/
theorem next_eq_base (nothing : ∀ address, ¬ live address) :
    arena.mmapNext = layout.mmapBase := by
  have lower := partitioned.base_le
  by_contra raised
  rcases partitioned.covered (arena.mmapNext - 1) (by omega) (by omega) with member | free
  · exact nothing _ member
  · exact partitioned.tight _ (by omega) free

theorem not_free_of_nothing_live (nothing : ∀ address, ¬ live address) (address : Nat) :
    ¬ Free arena.freeRegions address := by
  intro free
  have below := partitioned.free_below address free
  have atBase := partitioned.next_eq_base nothing
  omega

end Partition

end Partition

/-- The requests whose hint does not skip past the cursor. -/
def MmapRequest.HintReachable (request : MmapRequest) (mem : MemState) : Prop :=
  request.fixed = false -> linuxPageSize ∣ request.requested ->
    mem.layout.inArena request.requested request.length ->
    request.requested <= mem.arena.mmapNext

/-- A placement call whose hint does not skip past the cursor keeps the
partition, with its arena grant added to the live set. -/
theorem Placed.partition {mem after : MemState} {request : MmapRequest}
    {answer : Option (Nat × Bool)} (placed : Placed mem request answer after)
    (pages : request.PageLength) (reachable : request.HintReachable mem)
    {live : Nat -> Prop} (partitioned : Partition mem.layout mem.arena live) :
    Partition mem.layout after.arena
      (fun address => live address ∨ grantedBy mem.layout request answer address) := by
  have grantedAt : ∀ {start : Nat} {reused : Bool}, mem.layout.inArena start request.length ->
      ∀ address, (live address ∨
        grantedBy mem.layout request (some (start, reused)) address) <->
        (live address ∨ (start <= address ∧ address < start + request.length)) := by
    intro start reused inside address
    refine or_congr Iff.rfl ⟨?_, ?_⟩
    · rintro ⟨_, _, same, _, range⟩
      cases same
      exact range
    · intro range
      exact ⟨start, reused, rfl, inside, range⟩
  cases placed with
  | outside answer elsewhere =>
    refine partitioned.congr (fun address => ⟨fun either => either.resolve_right ?_, .inl⟩)
    rintro ⟨start, reused, same, inside, _⟩
    exact (elsewhere start reused same).1 inside
  | atFixed isFixed aligned inside =>
    exact (partitioned.claimFixed pages.1 aligned pages.2 inside).congr (grantedAt inside)
  | atHint notFixed nonzero aligned inside above =>
    rw [raised_arena]
    have atCursor : request.requested = mem.arena.mmapNext :=
      Nat.le_antisymm (reachable notFixed aligned inside) above
    refine (partitioned.bump pages.1 aligned pages.2 above inside partitioned.sorted
      partitioned.starts_aligned (fun address => ⟨.inl, ?_⟩)).congr (grantedAt inside)
    rintro (free | impossible)
    · exact free
    · omega
  | atFit notFixed unhinted fits fit found =>
    have inside : mem.layout.inArena fit.start request.length := by
      have kept := (partitioned.takeFit pages.2 found).live_below
      have first := kept fit.start (.inr ⟨le_rfl, by have := pages.1; omega⟩)
      have last := kept (fit.start + request.length - 1) (.inr (by have := pages.1; omega))
      have upper := partitioned.next_le
      have bound : fit.start + request.length - 1 < mem.arena.mmapNext := last.2
      exact MemoryLayout.inArena_iff.mpr ⟨first.1, by omega⟩
    exact (partitioned.takeFit pages.2 found).congr (grantedAt inside)
  | atCursor notFixed cursor address rounded congruent inside =>
    rw [raised_arena]
    rw [alignUp_of_dvd partitioned.next_aligned] at rounded
    cases rounded
    have ordered := MmapGrantCongruence.le_firstAtOrAfter congruent
    have aligned := MmapGrantCongruence.dvd_firstAtOrAfter partitioned.next_aligned congruent
    have window := MemoryLayout.inArena_iff.mp inside
    have limit := mem.layout.limit_lt
    by_cases skips : mem.arena.mmapNext < address
    · have inserted := freeRegionsInsert_spec partitioned.sorted
        (by omega : 0 < address - mem.arena.mmapNext)
        (by omega : mem.arena.mmapNext + (address - mem.arena.mmapNext) < wordLimit)
      have total : mem.arena.mmapNext + (address - mem.arena.mmapNext) = address := by omega
      rw [total] at inserted
      rw [if_pos skips]
      exact (partitioned.bump pages.1 aligned pages.2 ordered inside inserted.1
        (freeRegionsInsert_starts partitioned.starts_aligned partitioned.next_aligned _)
        inserted.2).congr (grantedAt inside)
    · rw [if_neg skips]
      refine (partitioned.bump pages.1 aligned pages.2 ordered inside partitioned.sorted
        partitioned.starts_aligned (fun other => ⟨.inl, ?_⟩)).congr (grantedAt inside)
      rintro (free | impossible)
      · exact free
      · omega

/-- The steps that lose no address: a hint does not skip past the cursor, and
an unmap ends at or below the cursor, and at the cursor only if it does not
start inside a free entry. -/
def KeepsSpace (before : MemState) : Event -> Prop
  | .granted request _ _ => request.HintReachable before
  | .unmapped address alignedLen => address + alignedLen <= before.arena.mmapNext ∧
      (address + alignedLen = before.arena.mmapNext -> ∀ region,
        region ∈ before.arena.freeRegions -> region.1 < address ->
          (regionBounds region).2 <= address)
  | _ => True

theorem step_partition {layout : MemoryLayout} {history : List Event} {before after : MemState}
    {event : Event} (sameLayout : before.layout = layout)
    (partitioned : Partition layout before.arena (Live layout history))
    (taken : step before event after) (keeps : KeepsSpace before event) :
    Partition layout after.arena (Live layout (event :: history)) := by
  subst sameLayout
  cases event with
  | granted request address reused =>
    have placed := nextMmapAddressInner_placed before request taken.1.1
    rw [taken.2] at placed
    refine (placed.partition taken.1 keeps partitioned).congr (fun other => or_congr Iff.rfl ?_)
    constructor
    · rintro ⟨inside, range⟩
      exact ⟨address, reused, rfl, inside, range⟩
    · rintro ⟨_, _, same, inside, range⟩
      cases same
      exact ⟨inside, range⟩
  | refused request =>
    have placed := nextMmapAddressInner_placed before request taken.1.1
    rw [taken.2] at placed
    cases placed with
    | outside => exact partitioned
  | unmapped address alignedLen =>
    rcases taken with ⟨length, rounded, served⟩
    rcases munmapServed_ok rounded served with ⟨aligned, positive, lower, same⟩
    rw [same]
    exact partitioned.release positive aligned
      (dvd_of_alignUp (by decide) rounded) lower keeps.1 keeps.2
  | reprotected address length prot =>
    rw [show after = _ from taken, (mprotectServed_arena before address length prot).1]
    exact partitioned
  | observed rows =>
    rw [show after = _ from taken]
    exact partitioned

theorem run_partition (layout : MemoryLayout) {history : List Event} {mem : MemState}
    (run : Run (starts layout)
      (fun before event after => step before event after ∧ KeepsSpace before event)
      history mem) :
    mem.layout = layout ∧ Partition layout mem.arena (Live layout history) := by
  refine ⟨run_layout (fun _ _ _ guarded => guarded.1) run, ?_⟩
  refine run.invariant (fun history mem => Partition layout mem.arena (Live layout history)) ?_ ?_
  · rintro mem rfl
    exact Partition.new layout
  · intro history before event after earlier held taken
    have sameLayout := run_layout (fun _ _ _ guarded => guarded.1) earlier
    exact step_partition sameLayout held taken.1 taken.2

/-! ## Pages -/

def PageLive (live : Nat -> Prop) (page : Nat) : Prop :=
  ∀ address, page <= address -> address < page + linuxPageSize -> live address

/-- The page lies in one entry of the free list. -/
def PageFree (arena : HostArena) (page : Nat) : Prop :=
  ∃ region ∈ arena.freeRegions, region.1 <= page ∧
    page + linuxPageSize <= (regionBounds region).2

/-- The page belongs to the tail at or above the cursor. -/
def PageTail (arena : HostArena) (page : Nat) : Prop :=
  arena.mmapNext <= page

/-- The page belongs to exactly one of the three parts. -/
def PagePartitioned (arena : HostArena) (live : Nat -> Prop) (page : Nat) : Prop :=
  (PageLive live page ∧ ¬ PageFree arena page ∧ ¬ PageTail arena page) ∨
  (¬ PageLive live page ∧ PageFree arena page ∧ ¬ PageTail arena page) ∨
  (¬ PageLive live page ∧ ¬ PageFree arena page ∧ PageTail arena page)

theorem Partition.pagePartitioned {layout : MemoryLayout} {arena : HostArena}
    {live : Nat -> Prop} (partitioned : Partition layout arena live) {page : Nat}
    (aligned : linuxPageSize ∣ page) (lower : layout.mmapBase <= page) :
    PagePartitioned arena live page := by
  have pagePositive : 0 < linuxPageSize := by decide
  have notBoth : PageLive live page -> ¬ PageFree arena page := by
    rintro allLive ⟨region, member, first, last⟩
    exact partitioned.live_not_free page (allLive page le_rfl (by omega))
      ⟨region, member, first, show page < (regionBounds region).2 by omega⟩
  by_cases tail : arena.mmapNext <= page
  · refine .inr (.inr ⟨?_, ?_, tail⟩)
    · intro allLive
      have := partitioned.live_below page (allLive page le_rfl (by omega))
      omega
    · rintro ⟨region, member, first, last⟩
      have := partitioned.free_below page
        ⟨region, member, first, show page < (regionBounds region).2 by omega⟩
      omega
  have below : page + linuxPageSize <= arena.mmapNext := by
    rcases aligned with ⟨count, rfl⟩
    rcases partitioned.next_aligned with ⟨total, same⟩
    unfold linuxPageSize at *
    omega
  have lastByte : (page + linuxPageSize - 1) / linuxPageSize = page / linuxPageSize := by
    rcases aligned with ⟨count, rfl⟩
    unfold linuxPageSize at *
    omega
  rcases partitioned.covered (page + linuxPageSize - 1) (by omega) (by omega) with member | free
  · have allLive : PageLive live page := by
      intro address first last
      refine partitioned.live_paged _ address ?_ member
      rcases aligned with ⟨count, rfl⟩
      unfold linuxPageSize at *
      omega
    exact .inl ⟨allLive, notBoth allLive, tail⟩
  have inEntry : PageFree arena page := by
    rcases free with ⟨region, member, first, last⟩
    have start : region.1 <= page + linuxPageSize - 1 := first
    have stop : page + linuxPageSize - 1 < (regionBounds region).2 := last
    have sameSide := boundary_le_iff (partitioned.starts_aligned region member) lastByte
    exact ⟨region, member, sameSide.mp start, by omega⟩
  exact .inr (.inl ⟨fun allLive => notBoth allLive inEntry, inEntry, tail⟩)

/-- With nothing live, a request for the whole window is granted at the base. -/
theorem Partition.window_granted {mem : MemState} {live : Nat -> Prop}
    (partitioned : Partition mem.layout mem.arena live)
    (nothing : ∀ address, ¬ live address) {request : MmapRequest}
    (unhinted : request.requested = 0) (notFixed : request.fixed = false)
    (anywhere : request.congruence = .any) (whole : request.length = mem.layout.mmapSize)
    (positive : 0 < request.length) :
    ∃ reused, (nextMmapAddressInner mem request).1 = some (mem.layout.mmapBase, reused) := by
  have limit := mem.layout.limit_lt
  have noFit : firstFit request.congruence request.length mem.arena.freeRegions = none := by
    cases found : firstFit request.congruence request.length mem.arena.freeRegions with
    | none => rfl
    | some fit =>
      rcases firstFit_spec found with ⟨_, _, _, _, _, _, stop, _⟩
      exact False.elim (partitioned.not_free_of_nothing_live nothing fit.start
        ((takeFit_spec partitioned.sorted found).2.2 fit.start le_rfl (by omega)))
  have cursor : alignUp mem.arena.mmapNext linuxPageSize = some mem.layout.mmapBase := by
    rw [partitioned.next_eq_base nothing]
    exact alignUp_of_dvd mem.layout.base_aligned
  have inside : rangeWithin mem.layout.mmapBase request.length mem.layout.mmapBase
      mem.layout.mmapSize = true :=
    rangeWithin_iff.mpr ⟨le_rfl, by omega, by omega, by omega⟩
  have bumped : ∃ reused after, placeBump mem request =
      some (some (mem.layout.mmapBase, reused), after) := by
    unfold placeBump
    rw [cursor, anywhere]
    simp only [Option.bind_some, MmapGrantCongruence.firstAtOrAfter]
    rw [if_pos inside, checkedAdd_of_lt (by omega)]
    exact ⟨_, _, rfl⟩
  rcases bumped with ⟨reused, after, bumped⟩
  refine ⟨reused, ?_⟩
  unfold nextMmapAddressInner placeHint placeAnywhere
  rw [if_neg (by rw [notFixed]; decide), if_pos unhinted]
  simp only [Option.getD_none]
  rw [if_pos (by omega), noFit]
  simp only [bumped, Option.getD_some]

/-- Over every run that loses no address, every page of the window is in
exactly one of the live set, one free entry and the tail, and once nothing is
live a request for the whole window is granted at the base. -/
theorem window_partitioned_of_keeps_space (layout : MemoryLayout) {history : List Event}
    {mem : MemState}
    (run : Run (starts layout)
      (fun before event after => step before event after ∧ KeepsSpace before event)
      history mem) :
    (∀ page, linuxPageSize ∣ page -> layout.mmapBase <= page ->
      page < layout.mmapBase + layout.mmapSize ->
      PagePartitioned mem.arena (Live layout history) page) ∧
    ((∀ address, ¬ Live layout history address) -> ∀ request : MmapRequest,
      request.requested = 0 -> request.fixed = false -> request.congruence = .any ->
      request.length = layout.mmapSize -> 0 < request.length ->
      ∃ reused, (nextMmapAddressInner mem request).1 = some (layout.mmapBase, reused)) := by
  rcases run_partition layout run with ⟨rfl, partitioned⟩
  refine ⟨fun page aligned lower _ => partitioned.pagePartitioned aligned lower, ?_⟩
  intro nothing request unhinted notFixed anywhere whole positive
  exact partitioned.window_granted nothing unhinted notFixed anywhere whole positive

/-- A page granted and unmapped again: the window is available as a whole. -/
theorem window_granted_after_one_page :
    ∃ history mem, Run (starts .hvfDefault) step history mem ∧ history.length = 2 ∧
      ∃ reused, (nextMmapAddressInner mem (.anonymous 0x800000000)).1 =
        some (0x6000000000, reused) := by
  have page : (MmapRequest.anonymous 0x1000).PageLength := by decide
  have unhinted : (MmapRequest.anonymous 0x1000).HintReachable (.newWithLayout .hvfDefault) := by
    intro _ _ _
    exact Nat.zero_le _
  have run : Run (starts .hvfDefault)
      (fun before event after => step before event after ∧ KeepsSpace before event)
      [.unmapped 0x6000000000 0x1000, .granted (.anonymous 0x1000) 0x6000000000 false] _ :=
    .next (.next (.initial rfl) ⟨step_granted page (by decide), unhinted⟩)
      ⟨step_unmapped (by decide) (by decide) (by decide) (by decide),
        Nat.le_of_ble_eq_true (by decide), nofun⟩
  have nothing : ∀ address, ¬ Live .hvfDefault
      [.unmapped 0x6000000000 0x1000, .granted (.anonymous 0x1000) 0x6000000000 false]
      address := by
    rintro address ⟨impossible | ⟨_, granted⟩, outside⟩
    · exact impossible
    · exact outside granted
  exact ⟨_, _, run.weaken (fun _ _ _ guarded => guarded.1), rfl,
    (window_partitioned_of_keeps_space .hvfDefault run).2 nothing (.anonymous 0x800000000)
      rfl (by decide) rfl rfl (by decide)⟩

/-- An honoured hint above the cursor strands the pages it skips: the first
page of the window is neither live, nor free, nor in the tail. -/
theorem hint_strands_skipped_pages :
    ∃ history mem, Run (starts .hvfDefault) step history mem ∧
      ¬ PagePartitioned mem.arena (Live .hvfDefault history) 0x6000000000 := by
  have pages : ({ MmapRequest.anonymous 0x1000 with requested := 0x6000010000 } :
      MmapRequest).PageLength := by decide
  refine ⟨[.granted { MmapRequest.anonymous 0x1000 with requested := 0x6000010000 }
    0x6000010000 false], _, .next (.initial rfl) (step_granted pages (by decide)), ?_⟩
  rintro (⟨allLive, _⟩ | ⟨_, ⟨_, member, _⟩, _⟩ | ⟨_, _, tail⟩)
  · rcases allLive 0x6000000000 (by decide) (by decide) with impossible | ⟨_, lower, _⟩
    · exact impossible
    · exact absurd lower (by decide)
  · cases member
  · exact absurd (Nat.ble_eq_true_of_le tail) (by decide)

end MmapArena
end Carrick
