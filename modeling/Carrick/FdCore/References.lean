import Carrick.FdCore.Deferral

namespace Carrick
namespace FdCore

open Foundation

/-!
# Reference accounting

What the two halves of a hold word say, in every world that a run reaches; which
records are free; and when a description is delivered.
-/

/-- How many slots of the live and the retired tables name the description. -/
def Core.slotsNaming (core : Core) (ofd : Nat) : Nat :=
  tally (fun t => if t.state = .free then 0 else t.storage.naming ofd) core.tables

/-- How many of the outstanding pins are of the record. -/
def World.pinsOf (world : World) (index : Nat) : Nat :=
  world.pinned.countP (fun key => key.index = index)

/-- The incarnation holds on: slots name it or pins are outstanding. -/
def World.Held (world : World) (key : OfdKey) : Prop :=
  ∃ record, world.core.store.records[key.index]? = some record ∧
    record.generation = key.generation ∧ record.holds ≠ 0

/-- The release of the incarnation waits on the retired stack. -/
def World.Waiting (world : World) (key : OfdKey) : Prop :=
  ∃ record, world.core.store.records[key.index]? = some record ∧
    record.generation = key.generation ∧ key.index ∈ world.core.store.retiredOfds

/-- Every incarnation of the record that was allocated was delivered. -/
def World.Idle (world : World) (index : Nat) : Prop :=
  ∀ generation, world.ledger.Allocated ⟨index, generation⟩ ->
    world.ledger.Delivered ⟨index, generation⟩

/-- What the accounts say of one world: the holds of a record count its slots
and pins, idle records that can be reused are free, and an incarnation is
delivered at most once, when nothing holds it. -/
structure Accounted (world : World) : Prop where
  references : ∀ index record, world.core.store.records[index]? = some record ->
    record.holds / refUnit = world.core.slotsNaming index ∧
      record.holds % refUnit = world.pinsOf index
  free : ∀ index record, world.core.store.records[index]? = some record ->
    (index ∈ world.core.store.freeOfds <->
      record.generation < wordLimit - 1 ∧ world.Idle index)
  once : (world.ledger.delivered.map Release.key).Nodup
  delivered : ∀ release ∈ world.ledger.delivered,
    release ∈ world.ledger.allocated
  pending : ∀ key, world.ledger.Allocated key ->
    (¬ world.ledger.Delivered key <-> world.Held key ∨ world.Waiting key)

/-- When one call delivers: where both halves reach zero, or where a release
that waited is taken. -/
structure DeliversOnTime (before : World) (call : Call) (after : World) : Prop where
  delivered : ∀ key, ¬ before.ledger.Delivered key -> after.ledger.Delivered key ->
    before.Held key ∧ ¬ after.Held key ∨ call = .takeRetiredOfd ∧ before.Waiting key
  settled : ∀ key, before.Held key -> ¬ after.Held key ->
    after.ledger.Delivered key ∨ call.Defers ∧ after.Waiting key

section States

variable {world : World}

theorem slotsNaming_eq (tables : TablesSound world.core.identity world.core) (ofd : Nat) :
    world.core.slotsNaming ofd = world.core.naming ofd := by
  refine tally_congr ?_
  intro t listed
  rcases List.getElem?_of_mem listed with ⟨index, there⟩
  split_ifs with free
  · rw [(tables.free_empty index t there free).1]
    rfl
  · rfl

theorem InOrder.references (inOrder : InOrder world) {index : Nat} {record : OfdRecord}
    (there : world.core.store.records[index]? = some record) :
    record.holds / refUnit = world.core.slotsNaming index ∧
      record.holds % refUnit = world.pinsOf index := by
  have account := inOrder.sound.books.account index record there
  rw [slotsNaming_eq inOrder.sound.tables, account.holds_eq]
  exact ⟨Counts.half_word _ .ref account.pins_lt, Counts.half_word _ .pin account.pins_lt⟩

/-- An incarnation that was allocated and not delivered is the current one. -/
theorem InOrder.pending (inOrder : InOrder world) {key : OfdKey}
    (allocated : world.ledger.Allocated key) :
    ¬ world.ledger.Delivered key <-> world.Held key ∨ world.Waiting key := by
  have books := inOrder.sound.books
  cases there : world.core.store.records[key.index]? with
  | none => exact absurd allocated ((books.unpublished key.index there).not_allocated _)
  | some record =>
    have account := books.account key.index record there
    have delivered := account.delivered_iff key.generation
    have known := (account.allocated_iff key.generation).mp allocated
    constructor
    · intro undelivered
      rcases known with older | ⟨same, held | waiting⟩
      · exact absurd (delivered.mpr older) undelivered
      · exact .inl ⟨record, there, same.symm, held⟩
      · exact .inr ⟨record, there, same.symm, waiting⟩
    rintro holding done
    have older := delivered.mp done
    rcases holding with ⟨found, present, same, _⟩ | ⟨found, present, same, _⟩
    · rw [there, Option.some.injEq] at present
      rw [present] at older
      omega
    · rw [there, Option.some.injEq] at present
      rw [present] at older
      omega

theorem InOrder.free_iff (inOrder : InOrder world) {index : Nat} {record : OfdRecord}
    (there : world.core.store.records[index]? = some record) :
    index ∈ world.core.store.freeOfds <->
      record.generation < wordLimit - 1 ∧ world.Idle index := by
  have account := inOrder.sound.books.account index record there
  constructor
  · intro free
    refine ⟨account.usable (.inr (.inr free)), ?_⟩
    intro generation allocated
    rw [account.delivered_iff]
    rcases (account.allocated_iff generation).mp allocated with older | ⟨_, held | waiting⟩
    · exact older
    · exact absurd (account.unheld (.inl free)) held
    · exact absurd waiting (account.one_stack free)
  rintro ⟨room, idle⟩
  have current : ¬ (record.holds ≠ 0 ∨ index ∈ world.core.store.retiredOfds) := by
    intro busy
    have delivered := idle record.generation
      ((account.allocated_iff record.generation).mpr (.inr ⟨rfl, busy⟩))
    exact absurd ((account.delivered_iff _).mp delivered) (Nat.lt_irrefl _)
  rw [not_or, not_not] at current
  rcases account.idle current.1 with free | waiting | spent
  · exact free
  · exact absurd waiting current.2
  · omega

theorem InOrder.accounted (inOrder : InOrder world) : Accounted world :=
  ⟨fun _ _ there => inOrder.references there, fun _ _ there => inOrder.free_iff there,
    inOrder.sound.books.delivered_nodup, inOrder.sound.books.delivered_allocated,
    fun _ allocated => inOrder.pending allocated⟩

end States

/-! ## One call -/

theorem delivers_on_time {before : World} (inOrder : InOrder before) {call : Call}
    (permits : before.Permits call) : DeliversOnTime before call (before.perform call) := by
  have kept := perform_kept inOrder call permits
  refine ⟨?_, ?_⟩
  · intro key undelivered delivered
    rcases List.mem_map.mp delivered with ⟨release, listed, same⟩
    rcases kept.released release listed with old | ⟨allocated, held⟩
    · exact absurd (List.mem_map.mpr ⟨release, old, same⟩) undelivered
    have wasAllocated : before.ledger.Allocated key := List.mem_map.mpr ⟨release, allocated, same⟩
    have notAfter : ¬ (before.perform call).Held key := by
      intro holding
      have stillAllocated : (before.perform call).ledger.Allocated key :=
        List.mem_map.mpr ⟨release, kept.older release allocated, same⟩
      exact (kept.inOrder.pending stillAllocated).mpr (.inl holding) delivered
    rcases (inOrder.pending wasAllocated).mp undelivered with holding | waiting
    · exact .inl ⟨holding, notAfter⟩
    rcases held with taking | ⟨record, there, held⟩
    · exact .inr ⟨taking, waiting⟩
    · rcases waiting with ⟨found, present, generation, _⟩
      rw [same, present, Option.some.injEq] at there
      exact .inl ⟨⟨found, present, generation, by rw [there]; exact held⟩, notAfter⟩
  rintro key ⟨record, there, generation, held⟩ gone
  have account := inOrder.sound.books.account key.index record there
  have allocated : before.ledger.Allocated key :=
    (account.allocated_iff key.generation).mpr (.inr ⟨generation.symm, .inl held⟩)
  rcases List.mem_map.mp allocated with ⟨release, listed, same⟩
  have still : (before.perform call).ledger.Allocated key :=
    List.mem_map.mpr ⟨release, kept.older release listed, same⟩
  by_cases delivered : (before.perform call).ledger.Delivered key
  · exact .inl delivered
  rcases (kept.inOrder.pending still).mp delivered with holding | waiting
  · exact absurd holding gone
  refine .inr ⟨?_, waiting⟩
  by_contra plain
  rcases waiting with ⟨found, _, _, onStack⟩
  by_cases taking : call = .takeRetiredOfd
  · rw [taking] at onStack
    have stacked : key.index ∈ before.core.store.retiredOfds := by
      refine OfdStore.takeRetiredOfd_shrinks before.core.store ?_
      have core : (before.perform .takeRetiredOfd).core =
          (Core.onStore OfdStore.takeRetiredOfd before.core).2 :=
        settle_core before _ (fun _ _ => rfl)
      rw [core] at onStack
      exact onStack
    exact held (account.unheld (.inr stacked))
  · have same := perform_deferred before plain taking
    have stacked : key.index ∈ before.core.store.retiredOfds := by
      unfold Core.deferred at same
      rw [<- same]
      exact onStack
    exact held (account.unheld (.inr stacked))

/-- In every world that a run reaches the accounts hold, and its last call
delivered on time. -/
theorem references_accounted {history : List Call} {world : World}
    (run : Run World.Starts World.Steps history world) :
    Accounted world ∧ ∀ call after, World.Steps world call after ->
      DeliversOnTime world call after := by
  have inOrder := run_inOrder run
  refine ⟨inOrder.accounted, ?_⟩
  rintro call after ⟨permits, rfl⟩
  exact delivers_on_time inOrder permits

/-! ## A spent record

A record whose generation cannot advance is not freed again, so a record may be
idle and not free. -/

/-- One record that was allocated and released so many times. -/
def spinning (count : Nat) : Core :=
  { identity := 1, tables := [], freeTables := [], retiredTables := [],
    store := { records := [{ generation := count, holds := 0, description := Description.zeroed }],
               freeOfds := if count < wordLimit - 1 then [0] else [], retiredOfds := [] } }

/-- The same record with a pin outstanding. -/
def spinningPinned (count : Nat) : Core :=
  { identity := 1, tables := [], freeTables := [], retiredTables := [],
    store := { records := [{ generation := count, holds := 1, description := Description.zeroed }],
               freeOfds := [], retiredOfds := [] } }

theorem createPinned_spinning {count : Nat} (room : count < wordLimit - 1) :
    Core.createPinned Description.zeroed (spinning count) =
      (.ok ⟨1, ⟨0, count⟩⟩, spinningPinned count) := by
  unfold spinning
  rw [if_pos room]
  rfl

theorem unpin_spinning {count : Nat} (room : count < wordLimit - 1) :
    Core.unpin ⟨1, ⟨0, count⟩⟩ (spinningPinned count) =
      (.ok (some ⟨⟨0, count⟩, Description.zeroed⟩), spinning (count + 1)) := by
  have half : Hold.pin.half 1 ≠ 0 := by
    show 1 % refUnit ≠ 0
    have unit := refUnit_eq
    have large := freeIndex_pos
    rw [Nat.mod_eq_of_lt (by omega)]
    exact Nat.one_ne_zero
  have checked : Core.checkPin ⟨1, ⟨0, count⟩⟩ (spinningPinned count) =
      (.ok (), spinningPinned count) := by
    have accepted : decide ((1 : Nat) = 1 ∧ count = count ∧ Hold.pin.half 1 ≠ 0) = true :=
      decide_eq_true ⟨rfl, rfl, half⟩
    show Command.require (decide ((1 : Nat) = 1 ∧ count = count ∧ Hold.pin.half 1 ≠ 0)) _
      (spinningPinned count) = _
    rw [accepted]
    rfl
  have there : (spinningPinned count).store.records[0]? =
      some ⟨count, 1, Description.zeroed⟩ := rfl
  have next : (count + 1) % wordLimit = count + 1 := Nat.mod_eq_of_lt (by omega)
  have dropped : OfdStore.dropHold 0 .pin (spinningPinned count).store =
      (.ok (some ⟨⟨0, count⟩, Description.zeroed⟩), (spinning (count + 1)).store) := by
    rw [dropHold_eq there half, if_neg (fun wrong => wrong rfl)]
    unfold OfdStore.freed spinningPinned spinning
    simp only [next, List.set_cons_zero]
    by_cases more : count < wordLimit - 2
    · rw [if_pos more, if_pos (by omega)]
    · rw [if_neg more, if_neg (by omega)]
  unfold Core.unpin
  rw [Command.bind_of_ok checked]
  exact onStore_ok dropped

theorem published_reached :
    Run World.Starts World.Steps [.publishOfds true 1] ⟨spinning 0, [], ⟨[], []⟩⟩ := by
  refine Run.next (Run.initial ⟨1, 0, Nat.one_ne_zero, rfl⟩) ⟨trivial, ?_⟩
  have published : OfdStore.publishOfds true 1 (Core.initialized 1 0).store =
      (.ok (), (spinning 0).store) := by
    have room : 0 < wordLimit - 1 := by decide
    unfold OfdStore.publishOfds spinning
    rw [Command.observe_bind_apply, Command.require_bind_true (by decide +kernel),
      if_neg Nat.one_ne_zero, if_pos room]
    rfl
  simp only [World.perform]
  rw [onStore_ok published]
  rfl

theorem pinned_reached {count : Nat} (room : count < wordLimit - 1) {history : List Call}
    {ledger : Ledger} (run : Run World.Starts World.Steps history ⟨spinning count, [], ledger⟩) :
    Run World.Starts World.Steps (.createPinned Description.zeroed :: history)
      ⟨spinningPinned count, [⟨0, count⟩],
        ledger.allocate ⟨⟨0, count⟩, Description.zeroed⟩⟩ := by
  refine Run.next run ⟨trivial, ?_⟩
  simp only [World.perform]
  rw [createPinned_spinning room]
  rfl

theorem unpin_steps {count : Nat} (room : count < wordLimit - 1) (ledger : Ledger) :
    World.Steps ⟨spinningPinned count, [⟨0, count⟩], ledger⟩ (.unpin ⟨1, ⟨0, count⟩⟩)
      ⟨spinning (count + 1), [], ledger.deliver [⟨⟨0, count⟩, Description.zeroed⟩]⟩ := by
  refine ⟨⟨rfl, List.mem_singleton.mpr rfl⟩, ?_⟩
  simp only [World.perform]
  rw [unpin_spinning room]
  simp only [World.settle, World.unpinning, World.delivering, List.erase_cons_head,
    Option.toList_some]

/-- A pinned description and the step that gives its pin back. -/
theorem references_accounted_pinned :
    Accounted ⟨spinningPinned 0, [⟨0, 0⟩], ⟨[⟨⟨0, 0⟩, Description.zeroed⟩], []⟩⟩ ∧
      DeliversOnTime ⟨spinningPinned 0, [⟨0, 0⟩], ⟨[⟨⟨0, 0⟩, Description.zeroed⟩], []⟩⟩
        (.unpin ⟨1, ⟨0, 0⟩⟩)
        ⟨spinning 1, [], ⟨[⟨⟨0, 0⟩, Description.zeroed⟩], [⟨⟨0, 0⟩, Description.zeroed⟩]⟩⟩ := by
  have room : 0 < wordLimit - 1 := by decide
  have accounted := references_accounted (pinned_reached room published_reached)
  exact ⟨accounted.1, accounted.2 _ _ (unpin_steps room _)⟩

/-- A record may be allocated and released as often as it has generations. -/
theorem spinning_reached : ∀ {count : Nat}, count <= wordLimit - 1 ->
    ∃ history ledger, Run World.Starts World.Steps history ⟨spinning count, [], ledger⟩ := by
  intro count
  induction count with
  | zero =>
    intro _
    exact ⟨_, _, published_reached⟩
  | succ count ih =>
    intro bound
    rcases ih (by omega) with ⟨history, ledger, run⟩
    have room : count < wordLimit - 1 := by omega
    exact ⟨_, _, Run.next (pinned_reached room run) (unpin_steps room _)⟩

/-- Not every idle record is free. -/
theorem idle_not_free : ¬ ∀ (history : List Call) (world : World),
    Run World.Starts World.Steps history world ->
    ∀ index record, world.core.store.records[index]? = some record ->
      (index ∈ world.core.store.freeOfds <-> world.Idle index) := by
  intro always
  rcases spinning_reached (Nat.le_refl (wordLimit - 1)) with ⟨history, ledger, run⟩
  have inOrder := run_inOrder run
  have there : (spinning (wordLimit - 1)).store.records[0]? =
      some ⟨wordLimit - 1, 0, Description.zeroed⟩ := rfl
  have account := inOrder.sound.books.account 0 _ there
  have idle : World.Idle ⟨spinning (wordLimit - 1), [], ledger⟩ 0 := by
    intro generation allocated
    rw [account.delivered_iff]
    rcases (account.allocated_iff generation).mp allocated with older | ⟨_, held | waiting⟩
    · exact older
    · exact absurd rfl held
    · exact absurd waiting List.not_mem_nil
  have free := (always history _ run 0 _ there).mpr idle
  unfold spinning at free
  rw [if_neg (Nat.lt_irrefl _)] at free
  exact List.not_mem_nil free

end FdCore
end Carrick
