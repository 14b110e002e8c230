import Carrick.Foundation.Stages
import Carrick.SoftMmu.Tlb

namespace Carrick
namespace SoftMmu

open Foundation

/-!
# Writes to pages that hold translated code

The processors share one inventory, which marks the frames whose bytes have been
decoded, and each has a translation buffer of its own.  A write translation is
cached only for a frame that is not marked; marking a frame flushes the write
plane of the buffers that the caller names, and the block decoder names its own.

The walk of the guest tables and the authentication of its leaf are arbitrary
here: an event carries what they answered, so that every virtual alias and leaf
size is covered.
-/

structure LinearPlacement where
  baseHostAddr : Nat
  spanBytes : Nat
  /-- The base and the size of every hole. -/
  holes : List (Nat × Nat)
  baseAligned : baseHostAddr % pageSize = 0
  bounded : baseHostAddr + spanBytes < wordLimit

namespace LinearPlacement

def isMmioHole (placement : LinearPlacement) (gpa : Nat) : Bool :=
  placement.holes.any fun hole =>
    decide (hole.1 <= gpa) && decide (gpa < saturatingAdd hole.1 hole.2)

def host (placement : LinearPlacement) (gpa : Nat) : Option Nat :=
  if placement.isMmioHole gpa then none
  else if placement.spanBytes <= gpa then none
  else some (placement.baseHostAddr + gpa)

end LinearPlacement

structure TranslatedLeaf where
  output : Nat
  size : Nat

/-- For every frame whether it is marked, and its generation, which a walk for a
write to a marked frame raises. -/
structure ExtentTable where
  codePages : Nat -> Option (Bool × Nat)

namespace ExtentTable

def isCodePage (table : ExtentTable) (frame : Nat) : Bool :=
  (table.codePages frame).any Prod.fst

def codeGeneration (table : ExtentTable) (frame : Nat) : Nat :=
  ((table.codePages frame).map Prod.snd).getD 0

def insert (table : ExtentTable) (frame : Nat) (active : Bool) (generation : Nat) : ExtentTable where
  codePages := Function.update table.codePages frame (some (active, generation))

def markCodePage (table : ExtentTable) (frame : Nat) : ExtentTable :=
  table.insert frame true
    (if table.codeGeneration frame = 0 then 1 else table.codeGeneration frame)

def clearCodePage (table : ExtentTable) (frame : Nat) : ExtentTable :=
  match table.codePages frame with
  | none => table
  | some entry => table.insert frame false entry.2

def onCodePageWrite (table : ExtentTable) (frame : Nat) : Option ExtentTable :=
  (checkedAdd (table.codeGeneration frame) 1).map (table.insert frame true)

end ExtentTable

inductive WalkOutcome where
  | ram (hostAddr frame generation : Nat) (invalidated : Bool)
  | mmio
  | fault
  | codeGenerationExhausted
deriving DecidableEq, Repr

/-- `walk_and_fill` behind the walk of the tables: `leaf` is its answer, and
`authentic` that of the extent lookup. -/
def walkAndFill (placement : LinearPlacement) (table : ExtentTable) (tlb : SoftTlb) (va : GuestVa)
    (access : Access) (mode : CpuAccessMode) (leaf : Option TranslatedLeaf) (authentic : Bool) :
    WalkOutcome × SoftTlb × ExtentTable :=
  match leaf with
  | none => (.fault, tlb, table)
  | some leaf =>
    let frame := pageBase leaf.output
    if placement.isMmioHole frame || placement.isMmioHole leaf.output then (.mmio, tlb, table)
    else if authentic = false then (.fault, tlb, table)
    else
      match placement.host frame with
      | none => (.fault, tlb, table)
      | some page =>
        let fill (tlb : SoftTlb) (plane : Access) :=
          tlb.fillPlaneWithLeafSize plane va mode page leaf.size
        let resolved (table : ExtentTable) (invalidated : Bool) :=
          WalkOutcome.ram (pageBase page + va.raw % pageSize) frame
            (table.codeGeneration frame) invalidated
        match access with
        | .read => (resolved table false, fill tlb .read, table)
        | .write =>
          if table.isCodePage frame then
            match table.onCodePageWrite frame with
            | none => (.codeGenerationExhausted, (fill tlb .read).flushWritePlane, table)
            | some raised => (resolved raised true, (fill tlb .read).flushWritePlane, raised)
          else (resolved table false, fill (fill tlb .read) .write, table)
        | .execute =>
          let kept := if table.isCodePage frame then tlb.evictWriteVa va else tlb
          (resolved table false, fill kept .execute, table)

/-! ## Runs -/

structure Inventory where
  table : ExtentTable
  tlbs : Nat -> SoftTlb

inductive MmuEvent where
  | walk (cpu : Nat) (va : GuestVa) (access : Access) (mode : CpuAccessMode)
      (leaf : Option TranslatedLeaf) (authentic : Bool)
  | evictVa (cpu : Nat) (va : GuestVa)
  | evictRange (cpu : Nat) (start : GuestVa) (len : Nat)
  | evictWriteVa (cpu : Nat) (va : GuestVa)
  | flushAll (cpu : Nat)
  | flushWritePlane (cpu : Nat)
  | markCodePage (cpu frame : Nat)
  | clearCodePage (frame : Nat)

namespace Inventory

def new : Inventory where
  table := ⟨fun _ => none⟩
  tlbs := fun _ => .new

def setTlb (state : Inventory) (cpu : Nat) (tlb : SoftTlb) : Inventory :=
  { state with tlbs := Function.update state.tlbs cpu tlb }

/-- A frame is page aligned by its type. -/
def next (placement : LinearPlacement) (state : Inventory) : MmuEvent -> Inventory
  | .walk cpu va access mode leaf authentic =>
    let walked := walkAndFill placement state.table (state.tlbs cpu) va access mode leaf authentic
    { state with table := walked.2.2 }.setTlb cpu walked.2.1
  | .evictVa cpu va => state.setTlb cpu ((state.tlbs cpu).evictVa va)
  | .evictRange cpu start len => state.setTlb cpu ((state.tlbs cpu).evictRange start len)
  | .evictWriteVa cpu va => state.setTlb cpu ((state.tlbs cpu).evictWriteVa va)
  | .flushAll cpu => state.setTlb cpu (state.tlbs cpu).flushAll
  | .flushWritePlane cpu => state.setTlb cpu (state.tlbs cpu).flushWritePlane
  | .markCodePage cpu frame =>
    { state with table := state.table.markCodePage (pageBase frame) }.setTlb cpu
      (state.tlbs cpu).flushWritePlane
  | .clearCodePage frame => { state with table := state.table.clearCodePage (pageBase frame) }

end Inventory

/-- The inventory before the event at position `n`. -/
def inventoryAt (placement : LinearPlacement) (events : List MmuEvent) (n : Nat) : Inventory :=
  stage (Inventory.next placement) .new events n

/-- Some address of the entry's page translates into a host page. -/
def SoftTlbEntry.Maps (entry : SoftTlbEntry) (page : Nat) : Prop :=
  entry.isValid = true ∧
    ∃ offset, offset < pageSize ∧ pageBase (entry.translate (entry.vaPage + offset)) = page

structure CodePagesGuarded (placement : LinearPlacement) (state : Inventory) : Prop where
  /-- No write translation of any processor maps a marked frame. -/
  unmapped : ∀ cpu slot frame page, state.table.isCodePage frame = true ->
    placement.host frame = some page -> ¬ ((state.tlbs cpu).entries .write slot).Maps page
  /-- A probe for a write to a marked frame misses. -/
  misses : ∀ cpu va len mode address frame page,
    (state.tlbs cpu).probe va len .write mode = some address ->
    state.table.isCodePage frame = true -> placement.host frame = some page ->
    pageBase address ≠ page
  /-- A walk for a write to a marked frame raises its generation. -/
  raises : ∀ cpu va mode leaf authentic address frame generation invalidated,
    (walkAndFill placement state.table (state.tlbs cpu) va .write mode leaf authentic).1 =
      .ram address frame generation invalidated -> state.table.isCodePage frame = true ->
    generation = state.table.codeGeneration frame + 1 ∧
      (walkAndFill placement state.table (state.tlbs cpu) va .write mode leaf
        authentic).2.2.codeGeneration frame = generation

/-- When a frame is marked, no other processor has a write translation for it. -/
def MarkedAlone (placement : LinearPlacement) (events : List MmuEvent) : Prop :=
  ∀ n cpu frame, events[n]? = some (.markCodePage cpu frame) ->
    ∀ other slot page, other ≠ cpu -> placement.host (pageBase frame) = some page ->
      ¬ (((inventoryAt placement events n).tlbs other).entries .write slot).Maps page

/-- Generations never go back, and a write to a marked frame gets one that the
frame never had. -/
structure GenerationsFresh (placement : LinearPlacement) (events : List MmuEvent) : Prop where
  monotone : ∀ frame m n, m <= n ->
    (inventoryAt placement events m).table.codeGeneration frame <=
      (inventoryAt placement events n).table.codeGeneration frame
  fresh : ∀ n cpu va mode leaf authentic address frame generation invalidated,
    events[n]? = some (.walk cpu va .write mode leaf authentic) ->
    (walkAndFill placement (inventoryAt placement events n).table
      ((inventoryAt placement events n).tlbs cpu) va .write mode leaf authentic).1 =
      .ram address frame generation invalidated ->
    (inventoryAt placement events n).table.isCodePage frame = true ->
    ∀ m, m <= n -> (inventoryAt placement events m).table.codeGeneration frame <
      (inventoryAt placement events (n + 1)).table.codeGeneration frame

/-! ## Entries and the pages they map -/

theorem modeTagBits_lt (mode : CpuAccessMode) : modeTagBits mode < 64 := by
  unfold modeTagBits
  split_ifs <;> omega

theorem pageBase_tagFor (va : GuestVa) (mode : CpuAccessMode) :
    pageBase (tagFor va mode) = pageBase va.raw := by
  have bits := modeTagBits_lt mode
  have size : pageSize = 4096 := rfl
  unfold tagFor pageBase
  rw [size]
  omega

theorem not_maps_invalid (page : Nat) : ¬ SoftTlbEntry.invalid.Maps page := by
  rintro ⟨valid, _⟩
  exact absurd rfl (of_decide_eq_true valid)

variable {va : GuestVa} {mode : CpuAccessMode} {page : Nat}

theorem maps_filled {target : Nat} (bounded : page < wordLimit)
    (maps : (⟨tagFor va mode, addendFor va page⟩ : SoftTlbEntry).Maps target) :
    pageBase page = target := by
  rcases maps with ⟨_, offset, small, rfl⟩
  have inWord := va.bounded
  have tag := pageBase_tagFor va mode
  unfold SoftTlbEntry.translate SoftTlbEntry.vaPage addendFor wrappingSub
  dsimp only
  rw [tag]
  have size : pageSize = 4096 := rfl
  have limit : wordLimit = 18446744073709551616 := rfl
  unfold pageBase
  rw [size] at small ⊢
  rw [limit] at bounded inWord ⊢
  omega

variable {tlb : SoftTlb}

theorem maps_probed {len address : Nat} {access : Access}
    (found : tlb.probe va len access mode = some address) :
    (tlb.entries access (indexFor va)).Maps (pageBase address) := by
  unfold SoftTlb.probe at found
  split_ifs at found with crosses hit
  cases found
  have bits := modeTagBits_lt mode
  have size : pageSize = 4096 := rfl
  have limit : wordLimit = 18446744073709551616 := rfl
  refine ⟨decide_eq_true ?_, va.raw % pageSize, Nat.mod_lt _ (by decide), ?_⟩
  · rw [hit, tagFor, pageBase, size, limit]
    omega
  · have whole : pageBase va.raw + va.raw % pageSize = va.raw :=
      Nat.sub_add_cancel (Nat.mod_le _ _)
    rw [SoftTlbEntry.vaPage, hit, pageBase_tagFor, whole]

variable {placement : LinearPlacement}

theorem host_eq_some {gpa : Nat} (placed : placement.host gpa = some page) :
    page = placement.baseHostAddr + gpa ∧ page < wordLimit := by
  unfold LinearPlacement.host at placed
  split_ifs at placed with hole beyond
  cases placed
  have bounded := placement.bounded
  exact ⟨rfl, by omega⟩

variable {frame : Nat}

theorem maps_own_frame {gpa target : Nat} (placed : placement.host (pageBase gpa) = some page)
    (other : placement.host frame = some target)
    (maps : (⟨tagFor va mode, addendFor va page⟩ : SoftTlbEntry).Maps target) :
    frame = pageBase gpa := by
  rcases host_eq_some placed with ⟨own, bounded⟩
  have same := maps_filled bounded maps
  have there := (host_eq_some other).1
  have aligned := placement.baseAligned
  have size : pageSize = 4096 := rfl
  unfold pageBase at own same ⊢
  rw [size] at aligned own same ⊢
  omega

theorem fill_entries (tlb : SoftTlb) (access : Access) (va : GuestVa) (mode : CpuAccessMode)
    (page size : Nat) (plane : Access) (slot : Nat) :
    (tlb.fillPlaneWithLeafSize access va mode page size).entries plane slot =
      if plane = access ∧ slot = indexFor va then ⟨tagFor va mode, addendFor va page⟩
      else tlb.entries plane slot :=
  rfl

/-! ## What a walk can do -/

/-- The answer of a walk, with the buffer and the inventory it leaves. -/
inductive Walked (placement : LinearPlacement) (table : ExtentTable) (tlb : SoftTlb) :
    Access -> WalkOutcome × SoftTlb × ExtentTable -> Prop where
  | refused {access : Access} {outcome : WalkOutcome}
      (unresolved : ∀ address frame generation invalidated,
        outcome ≠ .ram address frame generation invalidated) :
      Walked placement table tlb access (outcome, tlb, table)
  | passed {access : Access} {outcome : WalkOutcome} {later : SoftTlb} (unwritten : access ≠ .write)
      (kept : ∀ slot, later.entries .write slot = tlb.entries .write slot ∨
        later.entries .write slot = .invalid) :
      Walked placement table tlb access (outcome, later, table)
  | filled {address gpa page generation : Nat} {later : SoftTlb} (va : GuestVa)
      (mode : CpuAccessMode) (placed : placement.host (pageBase gpa) = some page)
      (unmarked : table.isCodePage (pageBase gpa) = false)
      (entries : ∀ slot, later.entries .write slot = tlb.entries .write slot ∨
        later.entries .write slot = ⟨tagFor va mode, addendFor va page⟩) :
      Walked placement table tlb .write
        (.ram address (pageBase gpa) generation false, later, table)
  | exhausted {later : SoftTlb} (flushed : ∀ slot, later.entries .write slot = .invalid) :
      Walked placement table tlb .write (.codeGenerationExhausted, later, table)
  | raised {address frame : Nat} {later : SoftTlb} (marked : table.isCodePage frame = true)
      (room : table.codeGeneration frame + 1 < wordLimit)
      (flushed : ∀ slot, later.entries .write slot = .invalid) :
      Walked placement table tlb .write
        (.ram address frame (table.codeGeneration frame + 1) true, later,
          table.insert frame true (table.codeGeneration frame + 1))

theorem codeGeneration_insert (table : ExtentTable) (frame generation : Nat) (active : Bool) :
    (table.insert frame active generation).codeGeneration frame = generation := by
  simp [ExtentTable.codeGeneration, ExtentTable.insert]

variable {generation : Nat}

theorem insert_other (table : ExtentTable) {other : Nat} {active : Bool} (apart : other ≠ frame) :
    (table.insert frame active generation).codePages other = table.codePages other :=
  Function.update_of_ne apart ..

theorem walkAndFill_walked (placement : LinearPlacement) (table : ExtentTable) (tlb : SoftTlb)
    (va : GuestVa) (access : Access) (mode : CpuAccessMode) (leaf : Option TranslatedLeaf)
    (authentic : Bool) :
    Walked placement table tlb access
      (walkAndFill placement table tlb va access mode leaf authentic) := by
  unfold walkAndFill
  cases leaf with
  | none => exact .refused nofun
  | some leaf =>
    dsimp only
    by_cases hole : (placement.isMmioHole (pageBase leaf.output) ||
        placement.isMmioHole leaf.output) = true
    · rw [if_pos hole]
      exact .refused nofun
    rw [if_neg hole]
    by_cases unauthentic : authentic = false
    · rw [if_pos unauthentic]
      exact .refused nofun
    rw [if_neg unauthentic]
    cases placed : placement.host (pageBase leaf.output) with
    | none => exact .refused nofun
    | some page =>
      cases access with
      | read => exact .passed nofun (fun _ => .inl rfl)
      | execute =>
        refine .passed nofun ?_
        intro slot
        show (if table.isCodePage (pageBase leaf.output) then tlb.evictWriteVa va
          else tlb).entries .write slot = _ ∨ _
        split_ifs
        · exact Shrinks.evictInPlane .write va .write slot
        · exact .inl rfl
      | write =>
        dsimp only
        cases marked : table.isCodePage (pageBase leaf.output) with
        | true =>
          rw [if_pos rfl, ExtentTable.onCodePageWrite]
          by_cases room : table.codeGeneration (pageBase leaf.output) + 1 < wordLimit
          · rw [checkedAdd_of_lt room, Option.map_some]
            dsimp only
            rw [codeGeneration_insert]
            exact .raised marked room (fun _ => rfl)
          · rw [show checkedAdd (table.codeGeneration (pageBase leaf.output)) 1 = none from
              if_neg room, Option.map_none]
            exact .exhausted (fun _ => rfl)
        | false =>
          rw [if_neg nofun]
          refine .filled va mode placed marked ?_
          intro slot
          rw [fill_entries, fill_entries]
          by_cases here : slot = indexFor va
          · exact .inr (if_pos ⟨rfl, here⟩)
          · exact .inl ((if_neg (fun both => here both.2)).trans
              (if_neg (fun both => nomatch both.1)))

variable {table : ExtentTable}

theorem Walked.marks {access : Access} {answer : WalkOutcome × SoftTlb × ExtentTable}
    (walked : Walked placement table tlb access answer) (frame : Nat) :
    answer.2.2.isCodePage frame = table.isCodePage frame := by
  cases walked with
  | refused => rfl
  | passed => rfl
  | filled => rfl
  | exhausted => rfl
  | @raised _ own _ marked _ _ =>
    by_cases same : frame = own
    · rw [same, marked, ExtentTable.isCodePage, ExtentTable.insert]
      simp
    · rw [ExtentTable.isCodePage, insert_other table same, ExtentTable.isCodePage]

/-! ## The write translations of a run -/

@[simp]
theorem setTlb_self (state : Inventory) (cpu : Nat) (tlb : SoftTlb) :
    (state.setTlb cpu tlb).tlbs cpu = tlb :=
  Function.update_self ..

variable {cpu : Nat}

theorem setTlb_other (state : Inventory) {other : Nat} (tlb : SoftTlb) (apart : other ≠ cpu) :
    (state.setTlb cpu tlb).tlbs other = state.tlbs other :=
  Function.update_of_ne apart ..

/-- No write translation of any processor maps a marked frame. -/
def Unmapped (placement : LinearPlacement) (state : Inventory) : Prop :=
  ∀ cpu slot frame page, state.table.isCodePage frame = true ->
    placement.host frame = some page -> ¬ ((state.tlbs cpu).entries .write slot).Maps page

variable {state : Inventory}

theorem Unmapped.of_cpu (unmapped : Unmapped placement state)
    (marks : ∀ frame, table.isCodePage frame = true -> state.table.isCodePage frame = true)
    (entries : ∀ slot, tlb.entries .write slot = (state.tlbs cpu).entries .write slot ∨
      ∀ frame page, state.table.isCodePage frame = true -> placement.host frame = some page
      -> ¬ (tlb.entries .write slot).Maps page) :
    Unmapped placement ({ state with table := table }.setTlb cpu tlb) := by
  intro other slot frame page marked placed maps
  have before := marks frame marked
  by_cases same : other = cpu
  · rw [same, setTlb_self] at maps
    rcases entries slot with kept | clear
    · rw [kept] at maps
      exact unmapped cpu slot frame page before placed maps
    · exact clear frame page before placed maps
  · rw [setTlb_other _ _ same] at maps
    exact unmapped other slot frame page before placed maps

theorem Unmapped.shrinks (unmapped : Unmapped placement state)
    (shrinks : Shrinks (state.tlbs cpu) tlb) :
    Unmapped placement (state.setTlb cpu tlb) := by
  refine unmapped.of_cpu (fun _ marked => marked) ?_
  intro slot
  rcases shrinks .write slot with kept | gone
  · exact .inl kept
  · rw [gone]
    exact .inr (fun _ page _ _ => not_maps_invalid page)

/-- The condition of one step: what is marked is mapped by no other processor. -/
def MarksAlone (placement : LinearPlacement) (state : Inventory) (event : MmuEvent) : Prop :=
  ∀ cpu frame, event = .markCodePage cpu frame ->
    ∀ other slot page, other ≠ cpu -> placement.host (pageBase frame) = some page ->
      ¬ ((state.tlbs other).entries .write slot).Maps page

theorem isCodePage_insert (table : ExtentTable) (frame generation other : Nat) (active : Bool) :
    (table.insert frame active generation).isCodePage other =
      if other = frame then active else table.isCodePage other := by
  split_ifs with same
  · rw [same]
    simp [ExtentTable.isCodePage, ExtentTable.insert]
  · rw [ExtentTable.isCodePage, insert_other table same, ExtentTable.isCodePage]

theorem Unmapped.next {event : MmuEvent} (unmapped : Unmapped placement state)
    (alone : MarksAlone placement state event) :
    Unmapped placement (state.next placement event) := by
  cases event with
  | walk cpu va access mode leaf authentic =>
    have walked := walkAndFill_walked placement state.table (state.tlbs cpu) va access mode leaf
      authentic
    refine unmapped.of_cpu (fun frame marked => (walked.marks frame) ▸ marked) ?_
    intro slot
    revert walked
    generalize walkAndFill placement state.table (state.tlbs cpu) va access mode leaf
      authentic = answer
    intro walked
    have invalid : ∀ entry, entry = SoftTlbEntry.invalid -> ∀ frame page,
        state.table.isCodePage frame = true -> placement.host frame = some page ->
        ¬ entry.Maps page := fun entry gone _ page _ _ => gone ▸ not_maps_invalid page
    cases walked with
    | refused => exact .inl rfl
    | passed _ kept => exact (kept slot).imp_right (invalid _)
    | filled va mode placed unmarked entries =>
      refine (entries slot).imp_right ?_
      intro filled frame page marked there maps
      rw [filled] at maps
      rw [maps_own_frame placed there maps, unmarked] at marked
      cases marked
    | exhausted flushed => exact .inr (invalid _ (flushed slot))
    | raised _ _ flushed => exact .inr (invalid _ (flushed slot))
  | evictVa cpu va => exact unmapped.shrinks (Shrinks.evictVa va)
  | evictRange cpu start len => exact unmapped.shrinks (Shrinks.evictRange start len)
  | evictWriteVa cpu va => exact unmapped.shrinks (Shrinks.evictInPlane .write va)
  | flushAll cpu => exact unmapped.shrinks Shrinks.flushAll
  | flushWritePlane cpu => exact unmapped.shrinks Shrinks.flushWritePlane
  | markCodePage cpu frame =>
    intro other slot marked page isMarked placed maps
    by_cases same : other = cpu
    · rw [same, Inventory.next, setTlb_self] at maps
      exact not_maps_invalid page maps
    rw [Inventory.next, setTlb_other _ _ same] at maps
    have isMarked : (state.table.markCodePage (pageBase frame)).isCodePage marked = true :=
      isMarked
    rw [ExtentTable.markCodePage, isCodePage_insert] at isMarked
    split_ifs at isMarked with own
    · rw [own] at placed
      exact alone cpu frame rfl other slot page same placed maps
    · exact unmapped other slot marked page isMarked placed maps
  | clearCodePage frame =>
    intro other slot marked page isMarked placed maps
    refine unmapped other slot marked page ?_ placed maps
    rw [Inventory.next, ExtentTable.clearCodePage] at isMarked
    cases entry : state.table.codePages (pageBase frame) with
    | none =>
      rw [entry] at isMarked
      exact isMarked
    | some value =>
      rw [entry] at isMarked
      dsimp only at isMarked
      rw [isCodePage_insert] at isMarked
      split_ifs at isMarked
      exact isMarked

theorem Walked.raises {answer : WalkOutcome × SoftTlb × ExtentTable} {address : Nat}
    {invalidated : Bool} (walked : Walked placement table tlb .write answer)
    (resolved : answer.1 = .ram address frame generation invalidated)
    (marked : table.isCodePage frame = true) :
    generation = table.codeGeneration frame + 1 ∧ answer.2.2.codeGeneration frame = generation := by
  cases walked with
  | refused unresolved => exact absurd resolved (unresolved _ _ _ _)
  | passed unwritten => exact absurd rfl unwritten
  | filled _ _ _ unmarked =>
    cases resolved
    rw [marked] at unmarked
    cases unmarked
  | exhausted => cases resolved
  | raised =>
    cases resolved
    exact ⟨rfl, codeGeneration_insert ..⟩

theorem guarded_of_unmapped (unmapped : Unmapped placement state) :
    CodePagesGuarded placement state where
  unmapped := unmapped
  misses := by
    intro cpu va len mode address frame page found marked placed same
    exact unmapped cpu _ frame page marked placed (same ▸ maps_probed found)
  raises := fun _ _ _ _ _ _ _ _ _ resolved marked =>
    (walkAndFill_walked ..).raises resolved marked

theorem inventoryAt_unmapped {events : List MmuEvent} (alone : MarkedAlone placement events)
    (n : Nat) :
    Unmapped placement (inventoryAt placement events n) := by
  refine stage_keeps_between (Unmapped placement) (Nat.zero_le n) ?_ ?_
  · intro k event _ _ present unmapped
    refine unmapped.next ?_
    intro cpu frame same
    exact alone k cpu frame (same ▸ present)
  · intro cpu slot frame page marked
    cases marked

/-! ## Generations -/

theorem codeGeneration_insert_le (table : ExtentTable) (active : Bool)
    (later : table.codeGeneration frame <= generation) (other : Nat) :
    table.codeGeneration other <= (table.insert frame active generation).codeGeneration other := by
  by_cases same : other = frame
  · rw [same, codeGeneration_insert]
    exact later
  · rw [ExtentTable.codeGeneration, ExtentTable.codeGeneration, insert_other table same]

theorem codeGeneration_next (placement : LinearPlacement) (state : Inventory) (event : MmuEvent)
    (frame : Nat) :
    state.table.codeGeneration frame <= (state.next placement event).table.codeGeneration frame := by
  cases event with
  | walk cpu va access mode leaf authentic =>
    show _ <= (walkAndFill placement state.table (state.tlbs cpu) va access mode leaf
      authentic).2.2.codeGeneration frame
    have walked := walkAndFill_walked placement state.table (state.tlbs cpu) va access mode leaf
      authentic
    revert walked
    generalize walkAndFill placement state.table (state.tlbs cpu) va access mode leaf
      authentic = answer
    intro walked
    cases walked with
    | refused => exact le_rfl
    | passed => exact le_rfl
    | filled => exact le_rfl
    | exhausted => exact le_rfl
    | raised => exact codeGeneration_insert_le _ _ (Nat.le_succ _) frame
  | evictVa => exact le_rfl
  | evictRange => exact le_rfl
  | evictWriteVa => exact le_rfl
  | flushAll => exact le_rfl
  | flushWritePlane => exact le_rfl
  | markCodePage cpu own =>
    refine codeGeneration_insert_le _ _ ?_ frame
    split_ifs with zero
    · rw [zero]
      exact Nat.zero_le 1
    · exact le_rfl
  | clearCodePage own =>
    show _ <= (state.table.clearCodePage (pageBase own)).codeGeneration frame
    unfold ExtentTable.clearCodePage
    cases entry : state.table.codePages (pageBase own) with
    | none => exact le_rfl
    | some value =>
      refine codeGeneration_insert_le _ _ ?_ frame
      rw [ExtentTable.codeGeneration, entry]
      exact le_rfl

theorem generations_fresh (placement : LinearPlacement) (events : List MmuEvent) :
    GenerationsFresh placement events := by
  have monotone : ∀ frame m n, m <= n ->
      (inventoryAt placement events m).table.codeGeneration frame <=
        (inventoryAt placement events n).table.codeGeneration frame := by
    intro frame m n later
    exact stage_keeps (fun state : Inventory =>
      (inventoryAt placement events m).table.codeGeneration frame <= state.table.codeGeneration frame)
      (fun state event _ reached =>
        Nat.le_trans reached (codeGeneration_next placement state event frame)) later le_rfl
  refine ⟨monotone, ?_⟩
  intro n cpu va mode leaf authentic address frame generation invalidated present resolved marked m
    earlier
  have raised := (walkAndFill_walked placement _ _ va .write mode leaf authentic).raises resolved
    marked
  have after : (inventoryAt placement events (n + 1)).table.codeGeneration frame = generation := by
    rw [inventoryAt, stage_next present]
    exact raised.2
  have before := monotone frame m n earlier
  omega

/-- The marked frames are guarded in every state of a run exactly if no frame is
marked while another processor has a write translation for it. -/
theorem code_pages_guarded_iff (placement : LinearPlacement) (events : List MmuEvent) :
    ((∀ n, CodePagesGuarded placement (inventoryAt placement events n)) <->
      MarkedAlone placement events) ∧ GenerationsFresh placement events := by
  refine ⟨⟨?_, fun alone n => guarded_of_unmapped (inventoryAt_unmapped alone n)⟩,
    generations_fresh placement events⟩
  intro guarded n cpu frame present other slot page apart placed maps
  refine (guarded (n + 1)).unmapped other slot (pageBase frame) page ?_ placed ?_
  · rw [inventoryAt, stage_next present]
    show (ExtentTable.markCodePage _ _).isCodePage (pageBase frame) = true
    rw [ExtentTable.markCodePage, isCodePage_insert, if_pos rfl]
  · rw [inventoryAt, stage_next present, Inventory.next, setTlb_other _ _ apart]
    exact maps

/-! ## Two processors -/

theorem twoPages_lt : 4096 + 4096 < wordLimit := by
  decide

/-- One frame of memory without a hole. -/
def onePage : LinearPlacement where
  baseHostAddr := 4096
  spanBytes := 4096
  holes := []
  baseAligned := rfl
  bounded := twoPages_lt

def userMode : CpuAccessMode :=
  ⟨true, false, true, true, true, true⟩

/-- Processor 0 writes to a page, and processor 1 then decodes it. -/
def writtenThenDecoded : List MmuEvent :=
  [.walk 0 ⟨0, wordLimit_pos⟩ .write userMode (some ⟨0, 4096⟩) true, .markCodePage 1 0]

/-- The write translation of processor 0 outlives the marking by processor 1. -/
theorem peer_keeps_write_translation :
    ((inventoryAt onePage writtenThenDecoded 2).tlbs 0).probe ⟨0, wordLimit_pos⟩ 8 .write userMode =
        some 4096 ∧
      ¬ ∀ placement events n, CodePagesGuarded placement (inventoryAt placement events n) := by
  have hit : ((inventoryAt onePage writtenThenDecoded 2).tlbs 0).probe ⟨0, wordLimit_pos⟩ 8 .write
      userMode = some 4096 := by
    decide +kernel
  refine ⟨hit, ?_⟩
  intro always
  refine (always onePage writtenThenDecoded 2).misses 0 _ 8 userMode 4096 0 4096 hit ?_ rfl rfl
  decide +kernel

end SoftMmu
end Carrick
