import Carrick.FdCore.Authority
import Carrick.FdCore.Holds

namespace Carrick
namespace FdCore

open Foundation

/-!
# Slots and holds agree

`Sound` says that the books hold when the references owed are the slots that
name a description.  Inside an operation the two differ by the references it has
taken and not yet written down; `Balanced` leaves the counts open for that.

Every operation settles: it returns with the accounts in order, or it refuses
and leaves the core as it was.
-/

/-- How many slots of all tables name the description. -/
def Core.naming (core : Core) (ofd : Nat) : Nat :=
  tally (fun t => t.storage.naming ofd) core.tables

structure TablesSound (who : Nat) (core : Core) : Prop where
  identity : core.identity = who
  consistent : ∀ (index : Nat) (t : TableRecord), core.tables[index]? = some t ->
    Consistent t.storage
  free_empty : ∀ (index : Nat) (t : TableRecord), core.tables[index]? = some t ->
    t.state = .free ->
    t.storage = TableStorage.empty ∧ t.extent = Extent.empty
  free_listed : ∀ index ∈ core.freeTables,
    ∃ t : TableRecord, core.tables[index]? = some t ∧ t.state = .free
  free_nodup : core.freeTables.Nodup

structure Balanced (who : Nat) (core : Core) (counts : Counts) (ledger : Ledger) : Prop where
  tables : TablesSound who core
  books : Books core.store counts ledger

/-- The accounts between operations. -/
def Sound (who : Nat) (core : Core) (pinned : List OfdKey) (ledger : Ledger) : Prop :=
  Balanced who core ⟨core.naming, pinned⟩ ledger

/-! ## Replacing a table record -/

section Tables

variable {who : Nat} {core : Core} {index : Nat} {t : TableRecord}

theorem tableAt_eq (there : core.tables[index]? = some t) : core.tableAt index = t := by
  unfold Core.tableAt
  rw [List.getD_eq_getElem?_getD, there, Option.getD_some]

theorem setTable_self (there : core.tables[index]? = some t) (new : TableRecord) :
    (core.setTable index new).tables[index]? = some new := by
  unfold Core.setTable
  simp only
  rw [List.getElem?_set, if_pos rfl, if_pos (List.getElem?_eq_some_iff.mp there).1]

theorem setTable_other {other : Nat} (different : other ≠ index) (new : TableRecord) :
    (core.setTable index new).tables[other]? = core.tables[other]? := by
  unfold Core.setTable
  simp only
  rw [List.getElem?_set, if_neg (Ne.symm different)]

theorem naming_setTable (there : core.tables[index]? = some t) (new : TableRecord) (ofd : Nat) :
    (core.setTable index new).naming ofd + t.storage.naming ofd =
      core.naming ofd + new.storage.naming ofd :=
  tally_set (fun t => t.storage.naming ofd) there new

theorem TablesSound.setTable (sound : TablesSound who core) (there : core.tables[index]? = some t)
    {new : TableRecord} (consistent : Consistent new.storage) (busy : t.state ≠ .free)
    (stays : new.state ≠ .free) : TablesSound who (core.setTable index new) := by
  refine ⟨sound.identity, ?_, ?_, ?_, sound.free_nodup⟩
  · intro other found present
    by_cases same : other = index
    · subst same
      rw [setTable_self there, Option.some.injEq] at present
      rw [<- present]
      exact consistent
    · rw [setTable_other same] at present
      exact sound.consistent other found present
  · intro other found present free
    by_cases same : other = index
    · subst same
      rw [setTable_self there, Option.some.injEq] at present
      rw [<- present] at free
      exact absurd free stays
    · rw [setTable_other same] at present
      exact sound.free_empty other found present free
  intro other listed
  rcases sound.free_listed other listed with ⟨found, present, free⟩
  have different : other ≠ index := by
    rintro rfl
    rw [there, Option.some.injEq] at present
    rw [present] at busy
    exact busy free
  exact ⟨found, by rw [setTable_other different]; exact present, free⟩

theorem TablesSound.busy_of_capacity (sound : TablesSound who core)
    (there : core.tables[index]? = some t) {fd : Nat} (inside : fd < t.storage.capacity) :
    t.state ≠ .free := by
  intro free
  rw [(sound.free_empty index t there free).1] at inside
  exact absurd inside (Nat.not_lt_zero _)

end Tables

/-! ## Writing one slot -/

section Slots

variable {who : Nat} {core : Core} {index fd : Nat} {t : TableRecord}

/-- The core with one slot of a table written. -/
def Core.writeSlot (core : Core) (index fd : Nat) (slot : DescriptorSlot) : Core :=
  core.setTable index
    ((core.tableAt index).withStorage ((core.tableAt index).storage.write fd slot))

theorem writeSlot_table (there : core.tables[index]? = some t) (slot : DescriptorSlot) :
    (core.writeSlot index fd slot).tables[index]? =
      some (t.withStorage (t.storage.write fd slot)) := by
  unfold Core.writeSlot
  rw [tableAt_eq there]
  exact setTable_self there _

theorem TablesSound.writeSlot (sound : TablesSound who core)
    (there : core.tables[index]? = some t) (inside : fd < t.storage.capacity)
    (slot : DescriptorSlot) : TablesSound who (core.writeSlot index fd slot) := by
  have busy := sound.busy_of_capacity there inside
  unfold Core.writeSlot
  rw [tableAt_eq there]
  exact sound.setTable there
    (TableStorage.write_consistent (sound.consistent index t there) inside slot) busy busy

theorem naming_writeSlot (there : core.tables[index]? = some t) (inside : fd < t.storage.capacity)
    (slot : DescriptorSlot) (ofd : Nat) :
    (core.writeSlot index fd slot).naming ofd + (t.storage.slotAt fd).naming ofd =
      core.naming ofd + slot.naming ofd := by
  unfold Core.writeSlot
  rw [tableAt_eq there]
  have table : (core.setTable index (t.withStorage (t.storage.write fd slot))).naming ofd +
      t.storage.naming ofd = core.naming ofd + (t.storage.write fd slot).naming ofd :=
    naming_setTable there _ ofd
  have slots := TableStorage.naming_write inside slot ofd
  omega

theorem naming_some (ofd other : Nat) (cloexec reserved : Bool) :
    DescriptorSlot.naming other ⟨some ⟨ofd, cloexec⟩, reserved⟩ = if other = ofd then 1 else 0 := by
  unfold DescriptorSlot.naming
  simp only [Option.map_some, Option.some.injEq]
  by_cases same : ofd = other
  · rw [if_pos same, if_pos same.symm]
  · rw [if_neg same, if_neg (Ne.symm same)]

theorem naming_none (other : Nat) (reserved : Bool) :
    DescriptorSlot.naming other ⟨none, reserved⟩ = 0 :=
  rfl

theorem naming_pos (there : core.tables[index]? = some t) {entry : Entry}
    (found : t.storage.get fd = some entry) : 0 < core.naming entry.ofd := by
  have inside := TableStorage.lt_capacity_of_get found
  have slot : 0 < (t.storage.slotAt fd).naming entry.ofd := by
    have shape : t.storage.slotAt fd = ⟨some ⟨entry.ofd, entry.cloexec⟩, (t.storage.slotAt fd).reserved⟩ := by
      unfold TableStorage.get at found
      rw [<- found]
    rw [shape, naming_some, if_pos rfl]
    exact Nat.one_pos
  have inTable : (t.storage.slotAt fd).naming entry.ofd <= t.storage.naming entry.ofd :=
    le_tally _ (List.mem_of_getElem? (TableStorage.getElem?_slotAt inside))
  have inCore : t.storage.naming entry.ofd <= core.naming entry.ofd :=
    le_tally (fun t => t.storage.naming entry.ofd) (List.mem_of_getElem? there)
  omega

end Slots

/-! ## Settling -/

/-- The operation returned with what is asked, or refused and changed nothing. -/
def Settles {σ α : Type} (state : σ) (good : α -> σ -> Prop) : Except Error α -> σ -> Prop
  | .ok answer, after => good answer after
  | .error _, after => after = state

namespace Settles

variable {σ α β : Type} {state : σ} {good : β -> σ -> Prop}

theorem require {condition : Bool} {reason : Error} {next : Unit -> Command Error σ β}
    (rest : condition = true -> Command.Ends (Settles state good) (next ()) state) :
    Command.Ends (Settles state good) (Command.require condition reason >>= next) state :=
  Command.Ends.require rfl rest

variable {next : α -> Command Error σ β}

theorem demand {found : Option α} {reason : Error}
    (rest : ∀ value, found = some value ->
      Command.Ends (Settles state good) (next value) state) :
    Command.Ends (Settles state good) (Command.demand found reason >>= next) state :=
  Command.Ends.demand rfl rest

theorem ofExcept {answer : Except Error α}
    (rest : ∀ value, answer = .ok value ->
      Command.Ends (Settles state good) (next value) state) :
    Command.Ends (Settles state good) (Command.ofExcept answer >>= next) state :=
  Command.Ends.ofExcept (fun _ => rfl) rest

/-- A first command that settles, and leaves the state alone if it returns. -/
theorem reading {first : Command Error σ α}
    (known : α -> Prop)
    (settles : Command.Ends (Settles state (fun value after => after = state ∧ known value))
      first state)
    (rest : ∀ value, known value -> Command.Ends (Settles state good) (next value) state) :
    Command.Ends (Settles state good) (first >>= next) state := by
  refine Command.Ends.bind ?_ ?_
  · intro reason middle ran
    exact settles.of_eq ran
  · intro value middle ran
    have known := settles.of_eq ran
    rw [known.1]
    exact rest value known.2

theorem returned {command : Command Error σ β} {answer : β} {after : σ}
    (ran : command state = (.ok answer, after)) (holds : good answer after) :
    Command.Ends (Settles state good) command state := by
  unfold Command.Ends
  rw [ran]
  exact holds

theorem refused {command : Command Error σ β} (reason : Error)
    (ran : command state = (.error reason, state)) :
    Command.Ends (Settles state good) command state := by
  unfold Command.Ends
  rw [ran]
  rfl

end Settles

section Locking

variable {β : Type} {core : Core} {good : β -> Core -> Prop}

theorem authenticate_reads (core : Core) :
    Command.Ends (Settles core (fun value after =>
      after = core ∧ value = core.identity ∧ core.identity ≠ 0)) Core.authenticate core := by
  unfold Core.authenticate
  refine Command.Ends.observe ?_
  refine Settles.require ?_
  intro nonzero
  exact ⟨rfl, rfl, of_decide_eq_true nonzero⟩

theorem settles_authenticate {next : Nat -> Core.Action β}
    (rest : core.identity ≠ 0 -> Command.Ends (Settles core good) (next core.identity) core) :
    Command.Ends (Settles core good) (Core.authenticate >>= next) core := by
  refine Settles.reading _ (authenticate_reads core) ?_
  rintro value ⟨same, nonzero⟩
  rw [same]
  exact rest nonzero

theorem lock_reads (core : Core) (venue : Venue) (id : TableId) (states : List TableState) :
    Command.Ends (Settles core (fun t after =>
      after = core ∧ core.tables[id.index]? = some t ∧ t.state ∈ states))
      (Core.lockInStates venue id states) core := by
  unfold Core.lockInStates
  refine settles_authenticate ?_
  intro _
  refine Settles.require ?_
  intro _
  refine Command.Ends.observe ?_
  refine Settles.demand ?_
  intro t there
  refine Settles.require ?_
  intro _
  refine Settles.require ?_
  intro matching
  refine Settles.require ?_
  intro _
  exact ⟨rfl, there, (of_decide_eq_true matching).1⟩

theorem settles_lock (venue : Venue) (id : TableId) (states : List TableState)
    {next : TableRecord -> Core.Action β}
    (rest : ∀ t, core.tables[id.index]? = some t -> t.state ∈ states ->
      Command.Ends (Settles core good) (next t) core) :
    Command.Ends (Settles core good) (Core.lockInStates venue id states >>= next) core := by
  refine Settles.reading _ (lock_reads core venue id states) ?_
  rintro t ⟨there, state⟩
  exact rest t there state

theorem settles_checkPin (pin : OfdPin) {next : Unit -> Core.Action β}
    (rest : ∀ record, core.store.records[pin.key.index]? = some record ->
      Hold.pin.half record.holds ≠ 0 ->
      Command.Ends (Settles core good) (next ()) core) :
    Command.Ends (Settles core good) (Core.checkPin pin >>= next) core := by
  refine Settles.reading
    (fun _ => ∃ record, core.store.records[pin.key.index]? = some record ∧
      Hold.pin.half record.holds ≠ 0) ?_ ?_
  · unfold Core.checkPin
    refine Command.Ends.observe ?_
    refine Settles.demand ?_
    intro record there
    refine settles_authenticate ?_
    intro _
    have shape : ∀ condition : Bool,
        (condition = true -> Hold.pin.half record.holds ≠ 0) ->
        Command.Ends (Settles core (fun _ after => after = core ∧
          ∃ record, core.store.records[pin.key.index]? = some record ∧
            Hold.pin.half record.holds ≠ 0))
          (Command.require condition Error.stalePin) core := by
      intro condition holds
      cases condition with
      | false => exact rfl
      | true => exact ⟨rfl, record, there, holds rfl⟩
    exact shape _ (fun matching => (of_decide_eq_true matching).2.2)
  · rintro _ ⟨record, there, half⟩
    exact rest record there half

end Locking

end FdCore
end Carrick
