import Carrick.MmapArena.Custody

namespace Carrick
namespace MmapArena

open Foundation

/-!
# The writable watermark of the arena

A placement answers whether its range has to be scrubbed before the guest sees
it.  Above the watermark nothing was ever writable, so a grant that starts at
or above it may be handed out as it is.  The fixed, hint and cursor paths raise
the watermark to the end of a writable grant.  The free-list path does not,
although its entry may lie above the watermark: a gap parked by a fixed grant
or by a congruent one was never handed out, and a range unmapped after a
`PROT_NONE` grant was never writable.  A writable grant from such an entry
leaves no trace, and once the cursor comes down its bytes are handed out as
fresh.

A `MAP_FIXED` grant always answers that no scrub is needed, because its caller
scrubs fixed anonymous ranges on its own.
-/

/-- The arena addresses some grant of the history made writable. -/
def EverWritable (layout : MemoryLayout) : List Event -> Nat -> Prop
  | [], _ => False
  | .granted request granted _ :: history, address =>
    EverWritable layout history address ∨ (request.writable = true ∧
      layout.inArena granted request.length ∧
      granted <= address ∧ address < granted + request.length)
  | _ :: history, address => EverWritable layout history address

/-- No grant of the history to a request `among` the given ones was answered as
fresh while it held an address that an earlier grant had made writable. -/
def FreshNeverWritten (layout : MemoryLayout) (among : MmapRequest -> Prop) : List Event -> Prop
  | [] => True
  | .granted request granted reused :: history => FreshNeverWritten layout among history ∧
      (among request -> reused = false -> ∀ address,
        granted <= address -> address < granted + request.length ->
          ¬ EverWritable layout history address)
  | _ :: history => FreshNeverWritten layout among history

/-- Where the free list serves a writable request, the entry's fit ends at or
below the watermark. -/
def FitCovered (mem : MemState) (request : MmapRequest) : Prop :=
  request.writable = true -> request.fixed = false -> placeHint mem request = none ->
    request.length <= mem.layout.mmapSize -> ∀ fit,
      firstFit request.congruence request.length mem.arena.freeRegions = some fit ->
        fit.stop <= mem.mmapWritableHigh

def WritableFitsCovered (before : MemState) : Event -> Prop
  | .granted request _ _ => FitCovered before request
  | _ => True

/-- A fixed request `among` the given ones starts at or above the watermark. -/
def FixedAbove (among : MmapRequest -> Prop) (before : MemState) : Event -> Prop
  | .granted request _ _ => among request -> request.fixed = true ->
      before.mmapWritableHigh <= request.requested
  | _ => True

theorem nextMmapAddressInner_fixed {mem : MemState} {request : MmapRequest} {granted : Nat}
    {reused : Bool} (isFixed : request.fixed = true)
    (answered : (nextMmapAddressInner mem request).1 = some (granted, reused)) :
    granted = request.requested := by
  unfold nextMmapAddressInner at answered
  rw [if_pos isFixed] at answered
  unfold placeFixed at answered
  split at answered
  · cases answered
  · split at answered
    · split at answered <;> cases answered <;> rfl
    · cases answered
      rfl

theorem MemState.le_raiseWritableHigh (mem : MemState) (stop : Nat) :
    mem.mmapWritableHigh <= (mem.raiseWritableHigh stop).mmapWritableHigh :=
  Nat.le_max_left _ _

theorem MemState.stop_le_raiseWritableHigh (mem : MemState) (stop : Nat) :
    stop <= (mem.raiseWritableHigh stop).mmapWritableHigh :=
  Nat.le_max_right _ _

theorem marked_watermark (writable : Bool) (mem : MemState) (stop : Nat) :
    mem.mmapWritableHigh <=
        (if writable = true then mem.raiseWritableHigh stop else mem).mmapWritableHigh ∧
      (writable = true -> stop <=
        (if writable = true then mem.raiseWritableHigh stop else mem).mmapWritableHigh) := by
  cases writable with
  | true => exact ⟨mem.le_raiseWritableHigh stop, fun _ => mem.stop_le_raiseWritableHigh stop⟩
  | false => exact ⟨le_rfl, nofun⟩

/-- A placement call never lowers the watermark, covers every writable arena
grant with it, and answers a request without `MAP_FIXED` as fresh only at or
above it or outside the arena. -/
theorem Placed.watermark {mem after : MemState} {request : MmapRequest}
    {answer : Option (Nat × Bool)} (placed : Placed mem request answer after) :
    mem.mmapWritableHigh <= after.mmapWritableHigh ∧
      (FitCovered mem request -> request.writable = true -> ∀ address,
        grantedBy mem.layout request answer address -> address < after.mmapWritableHigh) ∧
      (request.fixed = false -> ∀ start, answer = some (start, false) ->
        mem.mmapWritableHigh <= start ∨ mem.layout.mmapBase + mem.layout.mmapSize <= start) := by
  cases placed with
  | outside answer elsewhere =>
    refine ⟨le_rfl, ?_, ?_⟩
    · rintro _ _ address ⟨start, reused, same, inside, _⟩
      exact False.elim ((elsewhere start reused same).1 inside)
    · intro notFixed start same
      exact .inr ((elsewhere start false same).2 notFixed).2
  | atFixed isFixed aligned inside =>
    have marked := marked_watermark request.writable mem (request.requested + request.length)
    refine ⟨marked.1, ?_, ?_⟩
    · rintro _ writable address ⟨start, reused, same, _, _, upper⟩
      cases same
      exact Nat.lt_of_lt_of_le upper (marked.2 writable)
    · intro notFixed
      rw [isFixed] at notFixed
      cases notFixed
  | atHint notFixed nonzero aligned inside above =>
    have marked := marked_watermark request.writable
      { mem with arena := { mem.arena with mmapNext := request.requested + request.length } }
      (request.requested + request.length)
    refine ⟨marked.1, ?_, ?_⟩
    · rintro _ writable address ⟨start, reused, same, _, _, upper⟩
      cases same
      exact Nat.lt_of_lt_of_le upper (marked.2 writable)
    · intro _ start same
      have parts := Prod.mk.inj (Option.some.inj same)
      have fresh := of_decide_eq_false parts.2
      exact .inl (by omega)
  | atFit notFixed unhinted fits fit found =>
    refine ⟨le_rfl, ?_, ?_⟩
    · rintro covered writable address ⟨start, reused, same, _, _, upper⟩
      cases same
      rcases firstFit_spec found with ⟨_, _, _, _, _, _, stop, _⟩
      have high := covered writable notFixed unhinted fits fit found
      show address < mem.mmapWritableHigh
      omega
    · intro _ start same
      cases same
  | atCursor notFixed cursor address rounded congruent inside =>
    have marked := marked_watermark request.writable
      { mem with arena := { mem.arena with
          mmapNext := address + request.length
          freeRegions := if cursor < address then
            freeRegionsInsert mem.arena.freeRegions cursor (address - cursor)
            else mem.arena.freeRegions } }
      (address + request.length)
    refine ⟨marked.1, ?_, ?_⟩
    · rintro _ writable other ⟨start, reused, same, _, _, upper⟩
      cases same
      exact Nat.lt_of_lt_of_le upper (marked.2 writable)
    · intro _ start same
      have parts := Prod.mk.inj (Option.some.inj same)
      have fresh := of_decide_eq_false parts.2
      exact .inl (by omega)

theorem step_watermark_mono {before after : MemState} {event : Event}
    (taken : step before event after) : before.mmapWritableHigh <= after.mmapWritableHigh := by
  cases event with
  | granted request address reused =>
    have placed := nextMmapAddressInner_placed before request taken.1.1
    rw [taken.2] at placed
    exact placed.watermark.1
  | refused request =>
    have placed := nextMmapAddressInner_placed before request taken.1.1
    rw [taken.2] at placed
    exact placed.watermark.1
  | unmapped address alignedLen =>
    rcases taken with ⟨length, rounded, served⟩
    rw [(munmapServed_ok rounded served).2.2.2]
  | reprotected address length prot =>
    rw [show after = _ from taken]
    unfold mprotectServed
    split
    · split
      · exact before.le_raiseWritableHigh _
      · exact le_rfl
    · exact le_rfl
  | observed rows =>
    rw [show after = _ from taken]

/-- The watermark invariant: everything ever writable lies in the window and
below the watermark. -/
def WatermarkCovers (layout : MemoryLayout) (history : List Event) (mem : MemState) : Prop :=
  ∀ address, EverWritable layout history address ->
    address < mem.mmapWritableHigh ∧ address < layout.mmapBase + layout.mmapSize

/-- One step keeps the watermark invariant and the freshness of the history. -/
theorem step_watermark {layout : MemoryLayout} {among : MmapRequest -> Prop}
    {history : List Event} {before after : MemState}
    {event : Event} (sameLayout : before.layout = layout)
    (covers : WatermarkCovers layout history before)
    (fresh : FreshNeverWritten layout among history)
    (taken : step before event after) (guarded : WritableFitsCovered before event)
    (above : FixedAbove among before event) :
    WatermarkCovers layout (event :: history) after ∧
      FreshNeverWritten layout among (event :: history) := by
  subst sameLayout
  have mono := step_watermark_mono taken
  have carried : ∀ address, EverWritable before.layout history address ->
      address < after.mmapWritableHigh ∧
        address < before.layout.mmapBase + before.layout.mmapSize := by
    intro address member
    have old := covers address member
    exact ⟨by omega, old.2⟩
  cases event with
  | granted request granted reused =>
    have placed := nextMmapAddressInner_placed before request taken.1.1
    rw [taken.2] at placed
    refine ⟨?_, fresh, ?_⟩
    · rintro address (old | ⟨writable, inside, lower, upper⟩)
      · exact carried address old
      · have window := MemoryLayout.inArena_iff.mp inside
        exact ⟨placed.watermark.2.1 guarded writable address
          ⟨granted, reused, rfl, inside, lower, upper⟩, by omega⟩
    rintro asked rfl address lower _ written
    have old := covers address written
    cases isFixed : request.fixed with
    | true =>
      have high := above asked isFixed
      have start := nextMmapAddressInner_fixed isFixed (congrArg Prod.fst taken.2)
      omega
    | false =>
      rcases placed.watermark.2.2 isFixed granted rfl with high | outside
      · omega
      · omega
  | refused request => exact ⟨carried, fresh⟩
  | unmapped address alignedLen => exact ⟨carried, fresh⟩
  | reprotected address length prot => exact ⟨carried, fresh⟩
  | observed rows => exact ⟨carried, fresh⟩

/-- Over every run whose writable free-list grants fit below the watermark,
every arena address that was ever in a writable grant lies below it, and no
grant that is answered as fresh holds such an address.  The second part is
about the requests `among` any given ones: for requests without `MAP_FIXED` it
asks nothing more of the run, and for all requests it asks that fixed ones
start at or above the watermark, since their answer is always fresh. -/
theorem watermark_covers_writable_grants (layout : MemoryLayout) (among : MmapRequest -> Prop)
    {history : List Event} {mem : MemState}
    (run : Run (starts layout)
      (fun before event after => step before event after ∧
        WritableFitsCovered before event ∧ FixedAbove among before event)
      history mem) :
    (∀ address, EverWritable layout history address -> address < mem.mmapWritableHigh) ∧
      FreshNeverWritten layout among history := by
  have held : WatermarkCovers layout history mem ∧ FreshNeverWritten layout among history := by
    refine run.invariant (fun history mem => WatermarkCovers layout history mem ∧
      FreshNeverWritten layout among history) ?_ ?_
    · rintro mem rfl
      exact ⟨fun _ impossible => False.elim impossible, trivial⟩
    · intro history before event after earlier held taken
      have sameLayout := run_layout (fun _ _ _ guarded => guarded.1) earlier
      exact step_watermark sameLayout held.1 held.2 taken.1 taken.2.1 taken.2.2
  exact ⟨fun address member => (held.1 address member).1, held.2⟩

/-- A page-sized request at a fixed address. -/
def MmapRequest.fixedPage (requested prot : Nat) : MmapRequest where
  requested := requested
  length := 0x1000
  prot := prot
  flags := linuxMapFixed
  congruence := .any
  userCeiling := linuxHighVaThreshold

/-- A page granted from the cursor and one fixed above it; the lower one is
unmapped, and the free list grants it again as stale. -/
theorem watermark_covers_one_page :
    FreshNeverWritten .hvfDefault (fun _ => True)
      [.granted (.anonymous 0x1000) 0x6000000000 true, .unmapped 0x6000000000 0x1000,
        .granted (.fixedPage 0x6000001000 linuxProtWrite) 0x6000001000 false,
        .granted (.anonymous 0x1000) 0x6000000000 false] := by
  have page : (MmapRequest.anonymous 0x1000).PageLength := by decide
  have pageAbove : (MmapRequest.fixedPage 0x6000001000 linuxProtWrite).PageLength := by decide
  refine (watermark_covers_writable_grants .hvfDefault (fun _ => True)
    (.next (.next (.next (.next (.initial rfl)
      ⟨step_granted page ?_, ?_, nofun⟩)
      ⟨step_granted pageAbove ?_, nofun, ?_⟩)
      ⟨step_unmapped ?_ ?_ ?_ ?_, trivial, trivial⟩)
      ⟨step_granted page ?_, ?_, nofun⟩)).2
  case refine_2 =>
    intro _ _ _ _ fit found
    cases found
  case refine_4 =>
    intro _ _
    decide
  case refine_10 =>
    intro _ _ _ _ fit found
    cases found
    decide
  all_goals decide

/-- A `PROT_NONE` page fixed above the cursor parks the gap below it, and a
writable page from that gap is not below the watermark.  After both are
unmapped the cursor is back at the base and grants the page once more, as
fresh. -/
theorem fit_escapes_watermark :
    (∃ mem, Run (starts .hvfDefault) step
      [.granted (.anonymous 0x1000) 0x6000000000 true,
        .granted (.fixedPage 0x6000010000 0) 0x6000010000 false] mem ∧
      EverWritable .hvfDefault
        [.granted (.anonymous 0x1000) 0x6000000000 true,
          .granted (.fixedPage 0x6000010000 0) 0x6000010000 false] 0x6000000000 ∧
      mem.mmapWritableHigh <= 0x6000000000) ∧
    ∃ mem, Run (starts .hvfDefault) step
      [.granted (.anonymous 0x1000) 0x6000000000 false,
        .unmapped 0x6000010000 0x1000, .unmapped 0x6000000000 0x1000,
        .granted (.anonymous 0x1000) 0x6000000000 true,
        .granted (.fixedPage 0x6000010000 0) 0x6000010000 false] mem ∧
      ¬ FreshNeverWritten .hvfDefault (fun request => request.fixed = false)
        [.granted (.anonymous 0x1000) 0x6000000000 false,
          .unmapped 0x6000010000 0x1000, .unmapped 0x6000000000 0x1000,
          .granted (.anonymous 0x1000) 0x6000000000 true,
          .granted (.fixedPage 0x6000010000 0) 0x6000010000 false] := by
  have page : (MmapRequest.anonymous 0x1000).PageLength := by decide
  have pageAbove : (MmapRequest.fixedPage 0x6000010000 0).PageLength := by decide
  have written : EverWritable .hvfDefault
      [.granted (.anonymous 0x1000) 0x6000000000 true,
        .granted (.fixedPage 0x6000010000 0) 0x6000010000 false] 0x6000000000 :=
    .inr ⟨by decide, by decide, by decide, by decide⟩
  refine ⟨⟨_, .next (.next (.initial rfl) (step_granted pageAbove ?_)) (step_granted page ?_),
      written, ?_⟩,
    ⟨_, .next (.next (.next (.next (.next (.initial rfl) (step_granted pageAbove ?_))
      (step_granted page ?_)) (step_unmapped ?_ ?_ ?_ ?_)) (step_unmapped ?_ ?_ ?_ ?_))
      (step_granted page ?_), ?_⟩⟩
  case refine_15 =>
    rintro ⟨_, fresh⟩
    exact fresh rfl rfl 0x6000000000 (by decide) (by decide) written
  all_goals decide

end MmapArena
end Carrick
