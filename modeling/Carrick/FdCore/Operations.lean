import Carrick.FdCore.Accounting
import Carrick.FdCore.Undo

namespace Carrick
namespace FdCore

open Foundation

/-!
# Every operation settles

For each operation of the authority: it returns with the accounts in order, the
releases it delivers entered in the ledger, or it refuses and the core is the
one before.
-/

/-! ## Steps on the store and on one slot -/

section Steps

variable {who : Nat} {core : Core} {pinned : List OfdKey} {ledger : Ledger} {α β : Type}

/-- The core with another store. -/
def Core.withStore (core : Core) (store : OfdStore) : Core :=
  { core with store := store }

theorem onStore_ok {action : OfdStore.Action α} {value : α} {store : OfdStore}
    (ran : action core.store = (.ok value, store)) :
    Core.onStore action core = (.ok value, core.withStore store) := by
  unfold Core.onStore
  rw [Command.zoom_apply, ran]
  rfl

theorem onStore_error {action : OfdStore.Action α} {reason : Error}
    (ran : action core.store = (.error reason, core.store)) :
    Core.onStore action core = (.error reason, core) := by
  unfold Core.onStore
  rw [Command.zoom_apply, ran]

theorem TablesSound.withStore (sound : TablesSound who core) (store : OfdStore) :
    TablesSound who (core.withStore store) :=
  ⟨sound.identity, sound.consistent, sound.free_empty, sound.free_listed, sound.free_nodup⟩

variable {index fd : Nat} {t : TableRecord}

theorem counts_writeSlot (pinned : List OfdKey) (slot : DescriptorSlot) (after : Counts)
    (there : core.tables[index]? = some t) (inside : fd < t.storage.capacity)
    (pins : after.pinned = pinned)
    (moves : ∀ ofd, after.refs ofd + (t.storage.slotAt fd).naming ofd = core.naming ofd +
      slot.naming ofd) :
    (⟨(core.writeSlot index fd slot).naming, pinned⟩ : Counts) = after := by
  refine Counts.ext ?_ pins.symm
  intro ofd
  have written := naming_writeSlot there inside slot ofd
  have moved := moves ofd
  show (core.writeSlot index fd slot).naming ofd = _
  omega

theorem slotAt_of_get {storage : TableStorage} {entry : Entry}
    (found : storage.get fd = some entry) :
    storage.slotAt fd = ⟨some ⟨entry.ofd, entry.cloexec⟩, storage.reserved fd⟩ := by
  unfold TableStorage.get at found
  unfold TableStorage.reserved
  rw [<- found]

theorem slotAt_of_none {storage : TableStorage} (absent : storage.get fd = none) :
    storage.slotAt fd = ⟨none, storage.reserved fd⟩ := by
  unfold TableStorage.get at absent
  unfold TableStorage.reserved
  rw [<- absent]

theorem counts_install (pinned : List OfdKey) (there : core.tables[index]? = some t)
    (inside : fd < t.storage.capacity) (empty : t.storage.get fd = none) (ofd : Nat)
    (cloexec reserved : Bool) :
    (⟨(core.writeSlot index fd ⟨some ⟨ofd, cloexec⟩, reserved⟩).naming, pinned⟩ : Counts) =
      (⟨core.naming, pinned⟩ : Counts).addRef ofd := by
  refine counts_writeSlot pinned ⟨some ⟨ofd, cloexec⟩, reserved⟩ _ there inside rfl ?_
  intro other
  rw [slotAt_of_none empty, naming_none, naming_some]
  rfl

theorem sound_install {ofd : Nat} {cloexec reserved : Bool}
    (balanced : Balanced who core ((⟨core.naming, pinned⟩ : Counts).addRef ofd) ledger)
    (there : core.tables[index]? = some t) (inside : fd < t.storage.capacity)
    (empty : t.storage.get fd = none) :
    Sound who (core.writeSlot index fd ⟨some ⟨ofd, cloexec⟩, reserved⟩) pinned ledger := by
  refine ⟨balanced.tables.writeSlot there inside _, ?_⟩
  rw [counts_install pinned there inside empty]
  exact balanced.books

/-- A slot written anew for the same description does not move the counts. -/
theorem counts_rewrite (pinned : List OfdKey) {slot : DescriptorSlot}
    (there : core.tables[index]? = some t) (inside : fd < t.storage.capacity)
    (same : slot.entry.map Entry.ofd = (t.storage.get fd).map Entry.ofd) :
    (⟨(core.writeSlot index fd slot).naming, pinned⟩ : Counts) = ⟨core.naming, pinned⟩ := by
  refine counts_writeSlot pinned slot ⟨core.naming, pinned⟩ there inside rfl ?_
  intro other
  have named : slot.naming other = (t.storage.slotAt fd).naming other := by
    unfold DescriptorSlot.naming
    rw [same]
    rfl
  rw [named]

theorem sound_rewrite {slot : DescriptorSlot} (sound : Sound who core pinned ledger)
    (there : core.tables[index]? = some t) (inside : fd < t.storage.capacity)
    (same : slot.entry.map Entry.ofd = (t.storage.get fd).map Entry.ofd) :
    Sound who (core.writeSlot index fd slot) pinned ledger := by
  refine ⟨sound.tables.writeSlot there inside _, ?_⟩
  rw [counts_rewrite pinned there inside same]
  exact sound.books

theorem counts_vacate (pinned : List OfdKey) {entry : Entry}
    (there : core.tables[index]? = some t) (present : t.storage.get fd = some entry) :
    (⟨(core.writeSlot index fd ⟨none, t.storage.reserved fd⟩).naming, pinned⟩ : Counts) =
      (⟨core.naming, pinned⟩ : Counts).subRef entry.ofd := by
  refine counts_writeSlot pinned ⟨none, t.storage.reserved fd⟩
    ((⟨core.naming, pinned⟩ : Counts).subRef entry.ofd) there
    (TableStorage.lt_capacity_of_get present) rfl ?_
  intro other
  have owed := naming_pos there present
  rw [slotAt_of_get present, naming_none, naming_some]
  show core.naming other - (if other = entry.ofd then 1 else 0) + _ = _
  by_cases same : other = entry.ofd
  · rw [if_pos same, same]
    omega
  · rw [if_neg same]
    omega

end Steps

/-! ## Dropping a slot -/

/-- The step drops a reference that is owed and delivers what it answers, if
anything the description it dropped. -/
def Drops {ρ : Type} (drop : Nat -> OfdStore.Action ρ) (delivered : ρ -> List Release) : Prop :=
  ∀ (store : OfdStore) (counts : Counts) (ledger : Ledger) (index : Nat),
    Books store counts ledger -> 0 < counts.refs index ->
    ∃ answer after, drop index store = (.ok answer, after) ∧
      Books after (counts.subRef index) (ledger.deliver (delivered answer)) ∧
      ∀ release ∈ delivered answer, release.key.index = index

/-- Everything released was named by a slot. -/
def Core.NamesAll (core : Core) (releases : List Release) : Prop :=
  ∀ release ∈ releases, 0 < core.naming release.key.index

theorem dropRef_drops : Drops Core.dropRef Option.toList := by
  intro store counts ledger index books owed
  exact dropHold_spec .ref ⟨index, 0⟩ books owed

theorem dropRefFiltered_drops (releaseHere : Description -> Bool) :
    Drops (Core.dropRefFiltered releaseHere) DeferredRelease.delivered := by
  intro store counts ledger index books owed
  exact dropHoldFiltered_spec .ref ⟨index, 0⟩ books owed releaseHere

theorem entryAt_some {storage : TableStorage} {fd : Int} {entry : Entry}
    (found : Core.entryAt storage fd = some entry) : 0 <= fd ∧ storage.get fd.toNat = some entry := by
  unfold Core.entryAt at found
  split_ifs at found with negative
  exact ⟨by omega, found⟩

theorem entryAt_none {storage : TableStorage} {fd : Int} (number : 0 <= fd)
    (absent : Core.entryAt storage fd = none) : storage.get fd.toNat = none := by
  unfold Core.entryAt at absent
  rw [if_neg (by omega)] at absent
  exact absent

theorem namesAll_of_entry {core : Core} {index fd : Nat} {t : TableRecord} {entry : Entry}
    {releases : List Release} (there : core.tables[index]? = some t)
    (found : t.storage.get fd = some entry)
    (same : ∀ release ∈ releases, release.key.index = entry.ofd) :
    core.NamesAll releases := by
  intro release listed
  rw [same release listed]
  exact naming_pos there found

theorem namesAll_nil (core : Core) : core.NamesAll [] :=
  nofun

section Closing

variable {ρ : Type} {drop : Nat -> OfdStore.Action ρ} {delivered : ρ -> List Release}
  {who : Nat} {core : Core} {pinned : List OfdKey} {ledger : Ledger}

variable {index : Nat} {t : TableRecord} {fd : Int}

/-- Closing an open slot: the slot is vacant and the reference dropped. -/
theorem closeLockedWith_ran (drops : Drops drop delivered) {counts : Counts}
    (books : Books core.store counts ledger) (there : core.tables[index]? = some t)
    {entry : Entry} (found : Core.entryAt t.storage fd = some entry)
    (owed : 0 < counts.refs entry.ofd) :
    ∃ answer store,
      Core.closeLockedWith drop index fd core =
        (.ok answer,
          (core.writeSlot index fd.toNat ⟨none, t.storage.reserved fd.toNat⟩).withStore store) ∧
        Books store (counts.subRef entry.ofd) (ledger.deliver (delivered answer)) ∧
        ∀ release ∈ delivered answer, release.key.index = entry.ofd := by
  rcases drops core.store counts ledger entry.ofd books owed with ⟨answer, store, ran, after⟩
  refine ⟨answer, store, ?_, after⟩
  unfold Core.closeLockedWith Core.storageOf Core.editStorage
  rw [Command.observe_bind_apply, tableAt_eq there, Command.demand_bind_some found,
    Command.edit_bind_apply, tableAt_eq there]
  have vacated : core.setTable index (t.withStorage (t.storage.vacate fd.toNat)) =
      core.writeSlot index fd.toNat ⟨none, t.storage.reserved fd.toNat⟩ := by
    unfold Core.writeSlot TableStorage.vacate TableStorage.setEntry
    rw [tableAt_eq there]
  rw [vacated]
  exact onStore_ok ran

theorem closeLockedWith_sound (drops : Drops drop delivered)
    (sound : Sound who core pinned ledger) (there : core.tables[index]? = some t) {entry : Entry}
    (found : Core.entryAt t.storage fd = some entry) :
    ∃ answer store,
      Core.closeLockedWith drop index fd core =
        (.ok answer,
          (core.writeSlot index fd.toNat ⟨none, t.storage.reserved fd.toNat⟩).withStore store) ∧
        Sound who
          ((core.writeSlot index fd.toNat ⟨none, t.storage.reserved fd.toNat⟩).withStore store)
          pinned (ledger.deliver (delivered answer)) ∧
        ∀ release ∈ delivered answer, release.key.index = entry.ofd := by
  have present := (entryAt_some found).2
  have inside := TableStorage.lt_capacity_of_get present
  have owed := naming_pos there present
  rcases closeLockedWith_ran drops sound.books there found owed with
    ⟨answer, store, ran, books, same⟩
  refine ⟨answer, store, ran, ⟨(sound.tables.writeSlot there inside _).withStore store, ?_⟩, same⟩
  show Books store ⟨(core.writeSlot index fd.toNat _).naming, pinned⟩ _
  rw [counts_vacate pinned there present]
  exact books

theorem closeLockedWith_absent (there : core.tables[index]? = some t)
    (absent : Core.entryAt t.storage fd = none) :
    Core.closeLockedWith drop index fd core = (.error .badFd, core) := by
  unfold Core.closeLockedWith Core.storageOf
  rw [Command.observe_bind_apply, tableAt_eq there, Command.demand_bind_none absent]

theorem closeWith_settles (drops : Drops drop delivered) (sound : Sound who core pinned ledger)
    (venue : Venue) (table : TableId) (fd : Int) :
    Command.Ends (Settles core (fun answer after =>
      Sound who after pinned (ledger.deliver (delivered answer)) ∧
        core.NamesAll (delivered answer)))
      (Core.closeWith drop venue table fd) core := by
  unfold Core.closeWith Core.lock
  refine settles_lock venue table _ ?_
  intro t there _
  cases found : Core.entryAt t.storage fd with
  | none =>
    exact Settles.refused .badFd (closeLockedWith_absent there found)
  | some entry =>
    rcases closeLockedWith_sound drops sound there found with ⟨answer, store, ran, after, same⟩
    exact Settles.returned ran ⟨after, namesAll_of_entry there (entryAt_some found).2 same⟩

end Closing

/-! ## Opening and duplicating -/

section Installing

variable {who : Nat} {core : Core} {pinned : List OfdKey} {ledger : Ledger}

variable {index : Nat} {t : TableRecord}

theorem install_eq (there : core.tables[index]? = some t) (fd : Nat) (entry : Entry) :
    Core.install index fd entry core =
      (.ok (), core.writeSlot index fd ⟨some entry, t.storage.reserved fd⟩) := by
  rw [<- tableAt_eq there]
  rfl

theorem sound_installed {store : OfdStore} {fd ofd : Nat} (tables : TablesSound who core)
    (books : Books store ((⟨core.naming, pinned⟩ : Counts).addRef ofd) ledger)
    (there : core.tables[index]? = some t) (inside : fd < t.storage.capacity)
    (empty : t.storage.get fd = none) (cloexec : Bool) :
    Sound who (Core.install index fd ⟨ofd, cloexec⟩ (core.withStore store)).2 pinned ledger := by
  have balanced : Balanced who (core.withStore store)
      ((⟨(core.withStore store).naming, pinned⟩ : Counts).addRef ofd) ledger :=
    ⟨tables.withStore store, books⟩
  exact sound_install balanced there inside empty

section Sound

variable (sound : Sound who core pinned ledger)

include sound

theorem openDescriptor_settles (venue : Venue) (table : TableId) (min : Int)
    (description : Description) (cloexec : Bool) :
    Command.Ends (Settles core (fun _ after => ∃ key, core.store.nextKey = some key ∧
      Sound who after pinned (ledger.allocate ⟨key, description⟩)))
      (Core.openDescriptor venue table min description cloexec) core := by
  unfold Core.openDescriptor Core.lock Core.allocateFd Core.cover
  refine Settles.require ?_
  intro _
  refine settles_lock venue table _ ?_
  intro t there _
  refine Settles.ofExcept ?_
  intro fd found
  refine Settles.require ?_
  intro _
  rcases allocate_ok (sound.tables.consistent _ t there) found with ⟨_, _, inside, free⟩
  rcases allocOfd_spec sound.books description with ⟨key, store, next, ran, _, books⟩ | ⟨_, ran⟩
  · refine Settles.returned (Command.bind_of_ok (onStore_ok ran)) ⟨key, next, ?_⟩
    exact sound_installed sound.tables books there inside (isFree_entry free) cloexec
  · exact Settles.refused _ (Command.bind_of_error (onStore_error ran))

theorem retainInstall_settles {β : Type} {answer : β} {fd ofd : Nat} {record : OfdRecord}
    (present : core.store.records[ofd]? = some record) (there : core.tables[index]? = some t)
    (inside : fd < t.storage.capacity) (empty : t.storage.get fd = none) (cloexec : Bool) :
    Command.Ends (Settles core (fun _ after => Sound who after pinned ledger))
      (Core.onStore (OfdStore.retain ofd .ref) >>= fun _ =>
        Core.install index fd ⟨ofd, cloexec⟩ >>= fun _ => (pure answer : Core.Action β)) core := by
  rcases retain_spec sound.books .ref present with ⟨store, ran, _, books⟩ | ran
  · refine Settles.returned (Command.bind_of_ok (onStore_ok ran)) ?_
    exact sound_installed sound.tables books there inside empty cloexec
  · exact Settles.refused _ (Command.bind_of_error (onStore_error ran))

theorem Sound.record_of_entry (there : core.tables[index]? = some t) {fd : Int} {entry : Entry}
    (found : Core.entryAt t.storage fd = some entry) :
    ∃ record, core.store.records[entry.ofd]? = some record :=
  sound.books.record_of_count .ref (naming_pos there (entryAt_some found).2)

theorem duplicateMin_settles (venue : Venue) (table : TableId)
    (there : core.tables[table.index]? = some t) (old : Int) (min : Nat) (cloexec : Bool) :
    Command.Ends (Settles core (fun _ after => Sound who after pinned ledger))
      (Core.duplicateMin venue table t old min cloexec) core := by
  unfold Core.duplicateMin Core.allocateFd Core.cover
  refine Settles.demand ?_
  intro entry opened
  refine Settles.ofExcept ?_
  intro fd found
  refine Settles.require ?_
  intro _
  rcases allocate_ok (sound.tables.consistent _ t there) found with ⟨_, _, inside, free⟩
  rcases sound.record_of_entry there opened with ⟨record, present⟩
  exact retainInstall_settles sound present there inside (isFree_entry free) cloexec

theorem dup_settles (venue : Venue) (table : TableId) (old : Int) :
    Command.Ends (Settles core (fun _ after => Sound who after pinned ledger))
      (Core.dup venue table old) core := by
  unfold Core.dup Core.lock
  refine settles_lock venue table _ ?_
  intro t there _
  exact duplicateMin_settles sound venue table there old 0 false

theorem dupfd_settles (venue : Venue) (table : TableId) (old min : Int) (cloexec : Bool) :
    Command.Ends (Settles core (fun _ after => Sound who after pinned ledger))
      (Core.dupfd venue table old min cloexec) core := by
  unfold Core.dupfd Core.lock
  refine settles_lock venue table _ ?_
  intro t there _
  refine Settles.demand ?_
  intro _ _
  refine Settles.require ?_
  intro _
  exact duplicateMin_settles sound venue table there old min.toNat cloexec

end Sound

end Installing

/-! ## Replacing -/

section Replacing

variable {ρ : Type} {drop : Nat -> OfdStore.Action ρ} {delivered : ρ -> List Release}
  {nothing : ρ} {who : Nat} {core : Core} {pinned : List OfdKey} {ledger : Ledger}

theorem Counts.addRef_subRef {counts : Counts} {taken dropped : Nat}
    (owed : 0 < counts.refs dropped) :
    (counts.subRef dropped).addRef taken = (counts.addRef taken).subRef dropped := by
  refine Counts.ext ?_ rfl
  intro other
  show counts.refs other - (if other = dropped then 1 else 0) + (if other = taken then 1 else 0) =
    counts.refs other + (if other = taken then 1 else 0) - (if other = dropped then 1 else 0)
  by_cases same : other = dropped
  · rw [if_pos same, same]
    omega
  · rw [if_neg same, Nat.sub_zero, Nat.sub_zero]

section TableId

variable (drops : Drops drop delivered) (silent : delivered nothing = [])
  (sound : Sound who core pinned ledger) (venue : Venue) (table : TableId)

include drops silent sound venue table

/-- The new reference is taken before the old slot is closed, so the slot may
name the description that replaces it. -/
theorem replaceExactWith_settles {t : TableRecord} (there : core.tables[table.index]? = some t)
    {ofd : Nat} {record : OfdRecord} (present : core.store.records[ofd]? = some record) (new : Int)
    (cloexec : Bool) :
    Command.Ends (Settles core (fun answer after =>
      Sound who after pinned (ledger.deliver (delivered answer)) ∧
        core.NamesAll (delivered answer)))
      (Core.replaceExactWith drop nothing venue table t ofd new cloexec) core := by
  unfold Core.replaceExactWith Core.cover
  refine Settles.require ?_
  intro numbered
  refine Settles.require ?_
  intro inside
  refine Settles.require ?_
  intro _
  refine Settles.require ?_
  intro _
  rcases retain_spec sound.books .ref present with ⟨store, ran, _, books⟩ | ran
  · have retained : (core.withStore store).tables[table.index]? = some t := there
    unfold Command.Ends
    rw [Command.bind_of_ok (onStore_ok ran), Command.attempt_bind_apply]
    cases found : Core.entryAt t.storage new with
    | none =>
      rw [closeLockedWith_absent retained found]
      show Sound who (Core.install _ _ _ (core.withStore store)).2 pinned
        (ledger.deliver (delivered nothing)) ∧ core.NamesAll (delivered nothing)
      rw [silent]
      exact ⟨sound_installed sound.tables books there (of_decide_eq_true inside)
        (entryAt_none (of_decide_eq_true numbered).1 found) cloexec, namesAll_nil core⟩
    | some entry =>
      have named := (entryAt_some found).2
      have owed := naming_pos there named
      rcases closeLockedWith_ran drops books retained found (Nat.lt_add_right _ owed) with
        ⟨answer, dropped, closed, after, same⟩
      rw [closed]
      refine ⟨sound_installed
        ((sound.tables.withStore store).writeSlot retained (of_decide_eq_true inside) _) ?_
        (writeSlot_table retained _) ?_ ?_ cloexec, namesAll_of_entry there named same⟩
      · have counts := counts_vacate pinned retained named
        rw [counts, Counts.addRef_subRef owed]
        exact after
      · show new.toNat < (t.storage.write _ _).capacity
        rw [TableStorage.capacity_write]
        exact of_decide_eq_true inside
      · show ((t.storage.write _ _).slotAt _).entry = none
        rw [TableStorage.slotAt_write (of_decide_eq_true inside), if_pos rfl]
  · exact Settles.refused _ (Command.bind_of_error (onStore_error ran))

theorem dup2With_settles (old new : Int) :
    Command.Ends (Settles core (fun answer after =>
      Sound who after pinned (ledger.deliver (delivered answer)) ∧
        core.NamesAll (delivered answer)))
      (Core.dup2With drop nothing venue table old new) core := by
  unfold Core.dup2With Core.lock
  refine settles_lock venue table _ ?_
  intro t there _
  refine Settles.demand ?_
  intro entry found
  split_ifs with same
  · refine Settles.returned rfl ?_
    rw [silent]
    exact ⟨sound, namesAll_nil core⟩
  · rcases sound.record_of_entry there found with ⟨record, present⟩
    exact replaceExactWith_settles drops silent sound venue table there present new false

theorem dup3With_settles (old new : Int) (cloexec : Bool) :
    Command.Ends (Settles core (fun answer after =>
      Sound who after pinned (ledger.deliver (delivered answer)) ∧
        core.NamesAll (delivered answer)))
      (Core.dup3With drop nothing venue table old new cloexec) core := by
  unfold Core.dup3With Core.lock
  refine Settles.require ?_
  intro _
  refine settles_lock venue table _ ?_
  intro t there _
  refine Settles.demand ?_
  intro entry found
  rcases sound.record_of_entry there found with ⟨record, present⟩
  exact replaceExactWith_settles drops silent sound venue table there present new cloexec

end TableId

theorem replacePin_settles (sound : Sound who core pinned ledger) (venue : Venue) (table : TableId)
    (target : Int) (pin : OfdPin) (cloexec : Bool) :
    Command.Ends (Settles core (fun answer after =>
      Sound who after pinned (ledger.deliver answer.toList) ∧ core.NamesAll answer.toList))
      (Core.replacePin venue table target pin cloexec) core := by
  unfold Core.replacePin Core.lock
  refine settles_checkPin pin ?_
  intro record present _
  refine settles_lock venue table _ ?_
  intro t there _
  exact replaceExactWith_settles dropRef_drops rfl sound venue table there present target cloexec

end Replacing

/-! ## Pins -/

section Pins

variable {who : Nat} {core : Core} {pinned : List OfdKey} {ledger : Ledger}

variable {index : Nat} {record : OfdRecord}

theorem Sound.pins_of_half (sound : Sound who core pinned ledger)
    (there : core.store.records[index]? = some record) (half : Hold.pin.half record.holds ≠ 0) :
    record.holds ≠ 0 ∧ 0 < (⟨core.naming, pinned⟩ : Counts).pins index := by
  have account := sound.books.account index record there
  have counted := (⟨core.naming, pinned⟩ : Counts).half_word .pin account.pins_lt
  rw [<- account.holds_eq] at counted
  rw [counted] at half
  have pins : (⟨core.naming, pinned⟩ : Counts).pins index ≠ 0 := half
  refine ⟨?_, Nat.pos_of_ne_zero pins⟩
  intro unheld
  have word := account.holds_eq
  rw [unheld] at word
  exact pins (Counts.of_word_eq_zero word.symm).2

theorem installPin_settles (sound : Sound who core pinned ledger) (venue : Venue) (table : TableId)
    (target : Int) (pin : OfdPin) (cloexec : Bool) :
    Command.Ends (Settles core (fun _ after => Sound who after pinned ledger))
      (Core.installPin venue table target pin cloexec) core := by
  unfold Core.installPin Core.lock Core.cover
  refine settles_checkPin pin ?_
  intro record present _
  refine settles_lock venue table _ ?_
  intro t there _
  refine Settles.require ?_
  intro _
  refine Settles.require ?_
  intro inside
  refine Settles.require ?_
  intro _
  refine Settles.require ?_
  intro empty
  refine Settles.require ?_
  intro _
  exact retainInstall_settles sound present there (of_decide_eq_true inside)
    (Option.isNone_iff_eq_none.mp empty) cloexec

/-- Both references are taken before a slot is written; if the second is
refused, the first is given back. -/
theorem installPair_settles (sound : Sound who core pinned ledger) (venue : Venue) (table : TableId)
    (min : Int) (firstPin secondPin : OfdPin) (cloexec : Bool) :
    Command.Ends (Settles core (fun _ after => Sound who after pinned ledger))
      (Core.installPair venue table min firstPin secondPin cloexec) core := by
  unfold Core.installPair Core.lock Core.allocateFd Core.cover
  refine settles_lock venue table _ ?_
  intro t there _
  refine Settles.require ?_
  intro _
  refine settles_checkPin firstPin ?_
  intro firstRecord firstPresent firstHalf
  refine settles_checkPin secondPin ?_
  intro secondRecord secondPresent secondHalf
  refine Settles.ofExcept ?_
  intro first firstFound
  refine Settles.ofExcept ?_
  intro second secondFound
  refine Settles.require ?_
  intro _
  refine Settles.require ?_
  intro _
  have consistent := sound.tables.consistent _ t there
  rcases allocate_ok consistent firstFound with ⟨_, _, firstInside, firstFree⟩
  rcases allocate_ok consistent secondFound with ⟨above, _, secondInside, secondFree⟩
  have firstHeld := (sound.pins_of_half firstPresent firstHalf).1
  rcases retain_spec sound.books .ref firstPresent with ⟨store, ran, _, books⟩ | ran
  · have lent : store = core.store.lending [firstPin.key.index] := by
      rcases retain_lending [] firstPresent with same | refused
      · rw [lending_nil, ran, Prod.mk.injEq] at same
        exact same.2
      · rw [lending_nil, ran] at refused
        cases refused
    have secondThere := lending_record secondPresent [firstPin.key.index]
    rw [<- lent] at secondThere
    unfold Command.Ends
    rw [Command.bind_of_ok (onStore_ok ran), Command.attempt_bind_apply]
    rcases retain_spec books .ref secondThere with ⟨later, again, _, laterBooks⟩ | again
    · have both : Core.onStore (OfdStore.retain secondPin.key.index .ref) (core.withStore store) =
          (.ok (), core.withStore later) := onStore_ok again
      rw [both]
      have tables := sound.tables.withStore later
      have present : (core.withStore later).tables[table.index]? = some t := there
      simp only
      rw [Command.bind_of_ok (install_eq present first _),
        Command.bind_of_ok (install_eq (writeSlot_table present _) second _)]
      have counts := counts_install pinned present firstInside (isFree_entry firstFree)
        firstPin.key.index cloexec (t.storage.reserved first)
      refine sound_install ⟨tables.writeSlot present firstInside _, ?_⟩ (writeSlot_table present _)
        ?_ ?_
      · rw [counts]
        exact laterBooks
      · show second < (t.storage.write _ _).capacity
        rw [TableStorage.capacity_write]
        exact secondInside
      · show ((t.storage.write _ _).slotAt _).entry = none
        rw [TableStorage.slotAt_write firstInside, if_neg (by omega)]
        exact isFree_entry secondFree
    · have refused : Core.onStore (OfdStore.retain secondPin.key.index .ref) (core.withStore store) =
          (.error .noMemory, core.withStore store) := onStore_error again
      have undone : OfdStore.dropHold firstPin.key.index .ref store = (.ok none, core.store) := by
        rw [lent]
        have back := dropHold_lending [] firstPresent firstHeld
        rw [lending_nil] at back
        exact back
      rw [refused]
      simp only
      have restored : Core.onStore (OfdStore.dropHold firstPin.key.index .ref) (core.withStore store) =
          (.ok none, core) := onStore_ok undone
      rw [Command.bind_of_ok restored]
      rfl
  · exact Settles.refused _ (Command.bind_of_error (onStore_error ran))

theorem retainUnlessFinal_eq {store : OfdStore} (there : store.records[index]? = some record)
    (held : record.holds ≠ 0) (hold : Hold) :
    OfdStore.retainUnlessFinal index hold store =
      (OfdStore.retain index hold >>= fun _ => pure true) store := by
  unfold OfdStore.retainUnlessFinal
  rw [ofd_bind there, if_neg held]
  have ran := retain_eq there hold
  split_ifs at ran with room
  · rw [Command.require_bind_true (by simpa using room.2), Command.bind_of_ok ran]
    rfl
  · have full : hold.half record.holds = freeIndex := by
      by_contra notFull
      exact room ⟨held, notFull⟩
    rw [Command.require_bind_false (by simpa using full), Command.bind_of_error ran]

theorem Sound.held_of_entry (sound : Sound who core pinned ledger) {t : TableRecord}
    (there : core.tables[index]? = some t) {fd : Nat} {entry : Entry}
    (found : t.storage.get fd = some entry)
    (present : core.store.records[entry.ofd]? = some record) : record.holds ≠ 0 := by
  intro unheld
  have account := sound.books.account _ _ present
  have word := account.holds_eq
  rw [unheld] at word
  have named := naming_pos there found
  have none : core.naming entry.ofd = 0 := (Counts.of_word_eq_zero word.symm).1
  omega

/-- A pin is handed out for the incarnation that the slot names. -/
theorem pin_settles (sound : Sound who core pinned ledger) (venue : Venue) (table : TableId)
    (fd : Int) :
    Command.Ends (Settles core (fun answer after => answer.authority = who ∧
      Sound who after (answer.key :: pinned) ledger)) (Core.pin venue table fd) core := by
  unfold Core.pin
  refine settles_authenticate ?_
  intro _
  refine Settles.require ?_
  intro _
  refine Command.Ends.observe ?_
  refine Settles.demand ?_
  intro t there
  refine Settles.require ?_
  intro _
  refine Settles.require ?_
  intro _
  refine Settles.demand ?_
  intro entry found
  rcases sound.record_of_entry there found with ⟨record, present⟩
  have read : OfdStore.ofd entry.ofd core.store = (.ok record, core.store) := by
    unfold OfdStore.ofd
    rw [Command.observe_bind_apply, present]
    rfl
  have held := sound.held_of_entry there (entryAt_some found).2 present
  unfold Command.Ends
  rw [Command.bind_of_ok (onStore_ok read)]
  rcases retain_spec sound.books .pin present with ⟨store, ran, _, books⟩ | ran
  · have retained : OfdStore.retainUnlessFinal entry.ofd .pin core.store = (.ok true, store) := by
      rw [retainUnlessFinal_eq present held, Command.bind_of_ok ran, Command.pure_apply]
    have kept : Core.onStore (OfdStore.retainUnlessFinal entry.ofd .pin)
        (core.withStore core.store) = (.ok true, core.withStore store) := onStore_ok retained
    rw [Command.bind_of_ok kept]
    exact ⟨sound.tables.identity, sound.tables.withStore store, books⟩
  have full : OfdStore.retainUnlessFinal entry.ofd .pin core.store =
      (.error .noMemory, core.store) := by
    rw [retainUnlessFinal_eq present held, Command.bind_of_error ran]
  have refused : Core.onStore (OfdStore.retainUnlessFinal entry.ofd .pin)
      (core.withStore core.store) = (.error .noMemory, core) := onStore_error full
  rw [Command.bind_of_error refused]
  rfl

/-- A description created under a pin: the reference of the allocation is
exchanged for the pin. -/
theorem createPinned_settles (sound : Sound who core pinned ledger) (description : Description) :
    Command.Ends (Settles core (fun answer after => answer.authority = who ∧
      core.store.nextKey = some answer.key ∧
      Sound who after (answer.key :: pinned) (ledger.allocate ⟨answer.key, description⟩)))
      (Core.createPinned description) core := by
  unfold Core.createPinned
  refine settles_authenticate ?_
  intro _
  rcases allocOfd_spec sound.books description with ⟨key, store, next, ran, present, books⟩ | ⟨_, ran⟩
  · have read : OfdStore.ofd key.index store =
        (.ok ⟨key.generation, refUnit, description⟩, store) := by
      unfold OfdStore.ofd
      rw [Command.observe_bind_apply, present]
      rfl
    have reading : Core.onStore (OfdStore.ofd key.index) (core.withStore store) =
        (.ok ⟨key.generation, refUnit, description⟩, core.withStore store) := onStore_ok read
    unfold Command.Ends
    rw [Command.bind_of_ok (onStore_ok ran), Command.bind_of_ok reading]
    refine ⟨sound.tables.identity, next, sound.tables.withStore _, ?_⟩
    have account := books.account _ _ present
    have word : refUnit = (⟨core.naming, pinned⟩ : Counts).word key.index + refUnit := by
      have counted := account.holds_eq
      have added : ((⟨core.naming, pinned⟩ : Counts).add .ref key).word key.index =
          (⟨core.naming, pinned⟩ : Counts).word key.index + refUnit := Counts.word_add
      rw [<- added]
      exact counted
    have settled : (⟨core.naming, pinned⟩ : Counts).refs key.index = 0 ∧
        (⟨core.naming, pinned⟩ : Counts).pins key.index = 0 :=
      Counts.of_word_eq_zero (by omega)
    have pinWord : ((⟨core.naming, pinned⟩ : Counts).add .pin key).word key.index = 1 := by
      rw [Counts.word_add, Counts.word_eq_zero settled.1 settled.2]
      rfl
    have unit := refUnit_eq
    have large := freeIndex_pos
    have others : ∀ other, other ≠ key.index ->
        SameCounts ((⟨core.naming, pinned⟩ : Counts).addRef key.index)
          ((⟨core.naming, pinned⟩ : Counts).add .pin key) other := by
      intro other different
      have less := SameCounts.add (⟨core.naming, pinned⟩ : Counts) .ref key different
      have more := SameCounts.add (⟨core.naming, pinned⟩ : Counts) .pin key different
      exact ⟨more.refs.trans less.refs.symm, more.pins.trans less.pins.symm, fun other atOther =>
        (more.pinned other atOther).trans (less.pinned other atOther).symm⟩
    have exchanged := books.rehold present (show refUnit ≠ 0 by omega) others ?_ ?_ ?_ (by omega)
    · rw [pinWord] at exchanged
      exact exchanged
    · show core.naming key.index < refUnit
      have none : core.naming key.index = 0 := settled.1
      omega
    · show ((⟨core.naming, pinned⟩ : Counts).addPin key).pins key.index < refUnit
      rw [Counts.pins_addPin, if_pos rfl, settled.2]
      omega
    · intro other listed atIndex
      rcases List.mem_cons.mp listed with same | older
      · rw [same]
      · exact account.pinned other older atIndex
  · exact Settles.refused _ (Command.bind_of_error (onStore_error ran))

variable {pin : OfdPin}

section Sound

variable (sound : Sound who core pinned ledger) (named : who ≠ 0) (own : pin.authority = who)
  (outstanding : pin.key ∈ pinned)

include sound named own outstanding

theorem checkPin_outstanding :
    Core.checkPin pin core = (.ok (), core) := by
  have owed : (⟨core.naming, pinned⟩ : Counts).Owes .pin pin.key := outstanding
  rcases sound.books.record_of_count .pin owed.of_pos with ⟨record, present⟩
  have account := sound.books.account _ _ present
  have half : Hold.pin.half record.holds ≠ 0 := by
    rw [account.holds_eq, Counts.half_word _ .pin account.pins_lt]
    exact Nat.pos_iff_ne_zero.mp owed.of_pos
  have identity := sound.tables.identity
  have accepted : decide (pin.authority = core.identity ∧ record.generation = pin.key.generation ∧
      Hold.pin.half record.holds ≠ 0) = true :=
    decide_eq_true ⟨own.trans identity.symm, (account.pinned _ outstanding rfl).symm, half⟩
  have passed : Core.authenticate core = (.ok core.identity, core) := by
    unfold Core.authenticate
    rw [Command.observe_bind_apply, Command.require_bind_true]
    · rfl
    · rw [identity]
      exact decide_eq_true named
  unfold Core.checkPin
  rw [Command.observe_bind_apply, Command.demand_bind_some present, Command.bind_of_ok passed,
    accepted]
  rfl

theorem unpin_returns :
    ∃ answer after, Core.unpin pin core = (.ok answer, after) ∧
      Sound who after (pinned.erase pin.key) (ledger.deliver answer.toList) ∧
      ∀ release ∈ answer.toList, release.key.index = pin.key.index := by
  rcases dropHold_spec .pin pin.key sound.books outstanding with ⟨answer, store, ran, books, same⟩
  refine ⟨answer, core.withStore store, ?_, ⟨sound.tables.withStore store, books⟩, same⟩
  unfold Core.unpin
  rw [Command.bind_of_ok (checkPin_outstanding sound named own outstanding)]
  exact onStore_ok ran

theorem unpinFiltered_returns (releaseHere : Description -> Bool) :
    ∃ answer after, Core.unpinFiltered pin releaseHere core = (.ok answer, after) ∧
      Sound who after (pinned.erase pin.key) (ledger.deliver answer.delivered) ∧
      ∀ release ∈ answer.delivered, release.key.index = pin.key.index := by
  rcases dropHoldFiltered_spec .pin pin.key sound.books outstanding releaseHere with
    ⟨answer, store, ran, books, same⟩
  refine ⟨answer, core.withStore store, ?_, ⟨sound.tables.withStore store, books⟩, same⟩
  unfold Core.unpinFiltered
  rw [Command.bind_of_ok (checkPin_outstanding sound named own outstanding)]
  exact onStore_ok ran

end Sound

end Pins

/-! ## Reservations -/

section Reservations

variable {who : Nat} {core : Core} {pinned : List OfdKey} {ledger : Ledger}

variable {index fd : Nat} {t : TableRecord}

theorem reserveSlot_sound (sound : Sound who core pinned ledger)
    (there : core.tables[index]? = some t) (inside : fd < t.storage.capacity) :
    Sound who (Core.reserveSlot index fd core).2 pinned ledger := by
  have written : (Core.reserveSlot index fd core).2 =
      core.writeSlot index fd ⟨t.storage.get fd, true⟩ := by
    rw [<- tableAt_eq there]
    rfl
  rw [written]
  exact sound_rewrite sound there inside rfl

theorem reserveMin_settles (sound : Sound who core pinned ledger) (venue : Venue) (table : TableId)
    (min : Int) :
    Command.Ends (Settles core (fun _ after => Sound who after pinned ledger))
      (Core.reserveMin venue table min) core := by
  unfold Core.reserveMin Core.lock Core.allocateFd
  refine Settles.require ?_
  intro _
  refine settles_lock venue table _ ?_
  intro t there _
  refine Settles.ofExcept ?_
  intro fd found
  exact reserveSlot_sound sound there (allocate_ok (sound.tables.consistent _ t there) found).2.2.1

theorem reserveDupMin_settles (sound : Sound who core pinned ledger) (venue : Venue)
    (table : TableId) (min : Int) :
    Command.Ends (Settles core (fun _ after => Sound who after pinned ledger))
      (Core.reserveDupMin venue table min) core := by
  unfold Core.reserveDupMin Core.lock Core.allocateFd
  refine settles_lock venue table _ ?_
  intro t there _
  refine Settles.require ?_
  intro _
  refine Settles.ofExcept ?_
  intro fd found
  exact reserveSlot_sound sound there (allocate_ok (sound.tables.consistent _ t there) found).2.2.1

theorem reserveExact_settles (sound : Sound who core pinned ledger) (venue : Venue)
    (table : TableId) (fd : Int) :
    Command.Ends (Settles core (fun _ after => Sound who after pinned ledger))
      (Core.reserveExact venue table fd) core := by
  unfold Core.reserveExact Core.lock
  refine settles_lock venue table _ ?_
  intro t there _
  refine Settles.require ?_
  intro _
  refine Settles.require ?_
  intro inside
  refine Settles.require ?_
  intro _
  exact reserveSlot_sound sound there (of_decide_eq_true inside)

theorem inside_of_reserved {storage : TableStorage} (claimed : storage.reserved fd = true) :
    fd < storage.capacity := by
  by_contra beyond
  unfold TableStorage.reserved at claimed
  rw [TableStorage.slotAt_beyond (Nat.le_of_not_lt beyond)] at claimed
  cases claimed

theorem unreserve_eq (there : core.tables[index]? = some t) :
    Core.editStorage index (fun storage => storage.unreserve fd) core =
      (.ok (), core.writeSlot index fd ⟨t.storage.get fd, false⟩) := by
  rw [<- tableAt_eq there]
  rfl

theorem unreserve_keeps (pinned : List OfdKey) (tables : TablesSound who core)
    (there : core.tables[index]? = some t) (inside : fd < t.storage.capacity) :
    TablesSound who (core.writeSlot index fd ⟨t.storage.get fd, false⟩) ∧
      (⟨(core.writeSlot index fd ⟨t.storage.get fd, false⟩).naming, pinned⟩ : Counts) =
        ⟨core.naming, pinned⟩ :=
  ⟨tables.writeSlot there inside _, counts_rewrite pinned there inside rfl⟩

theorem cancelReservation_settles (sound : Sound who core pinned ledger) (venue : Venue)
    (reservation : Core.SlotReservation) :
    Command.Ends (Settles core (fun _ after => Sound who after pinned ledger))
      (Core.cancelReservation venue reservation) core := by
  unfold Core.cancelReservation Core.lock
  refine settles_lock venue reservation.table _ ?_
  intro t there _
  refine Settles.require ?_
  intro claimed
  refine Settles.returned (unreserve_eq there) ?_
  exact sound_rewrite sound there (inside_of_reserved claimed) rfl

theorem counts_replace (pinned : List OfdKey) {old : Entry} (there : core.tables[index]? = some t)
    (present : t.storage.get fd = some old) (ofd : Nat) (cloexec reserved : Bool) :
    (⟨(core.writeSlot index fd ⟨some ⟨ofd, cloexec⟩, reserved⟩).naming, pinned⟩ : Counts) =
      ((⟨core.naming, pinned⟩ : Counts).addRef ofd).subRef old.ofd := by
  refine counts_writeSlot pinned ⟨some ⟨ofd, cloexec⟩, reserved⟩ _ there
    (TableStorage.lt_capacity_of_get present) rfl ?_
  intro other
  have owed := naming_pos there present
  rw [slotAt_of_get present, naming_some, naming_some]
  show core.naming other + (if other = ofd then 1 else 0) - (if other = old.ofd then 1 else 0) +
    (if other = old.ofd then 1 else 0) = core.naming other + if other = ofd then 1 else 0
  by_cases same : other = old.ofd
  · rw [if_pos same, same]
    omega
  · rw [if_neg same]
    omega

/-- The claim is consumed and the description installed, over the one that the
slot named, which is dropped. -/
theorem commitReservationWith_settles {ρ : Type} {drop : Nat -> OfdStore.Action ρ}
    {delivered : ρ -> List Release} {nothing : ρ} (drops : Drops drop delivered)
    (silent : delivered nothing = []) (sound : Sound who core pinned ledger) (venue : Venue)
    (reservation : Core.SlotReservation) (pin : OfdPin) (cloexec : Bool) :
    Command.Ends (Settles core (fun answer after =>
      Sound who after pinned (ledger.deliver (delivered answer)) ∧
        core.NamesAll (delivered answer)))
      (Core.commitReservationWith drop nothing venue reservation pin cloexec) core := by
  unfold Core.commitReservationWith Core.lock Core.cover
  refine settles_lock venue reservation.table _ ?_
  intro t there _
  refine settles_checkPin pin ?_
  intro record present _
  refine Settles.require ?_
  intro claimed
  refine Settles.require ?_
  intro _
  have inside := inside_of_reserved claimed
  rcases retain_spec sound.books .ref present with ⟨store, ran, _, books⟩ | ran
  · have retained : (core.withStore store).tables[reservation.table.index]? = some t := there
    have installed : ((core.withStore store).writeSlot reservation.table.index reservation.fd
        ⟨some ⟨pin.key.index, cloexec⟩, t.storage.reserved reservation.fd⟩).tables[
          reservation.table.index]? = _ := writeSlot_table retained _
    have insideAfter : reservation.fd < (t.storage.write reservation.fd
        ⟨some ⟨pin.key.index, cloexec⟩, t.storage.reserved reservation.fd⟩).capacity := by
      rw [TableStorage.capacity_write]
      exact inside
    rcases unreserve_keeps pinned ((sound.tables.withStore store).writeSlot retained inside _)
      installed insideAfter with ⟨tables, unclaimed⟩
    unfold Command.Ends
    rw [Command.bind_of_ok (onStore_ok ran), Command.bind_of_ok (install_eq retained _ _),
      Command.bind_of_ok (unreserve_eq installed)]
    cases old : t.storage.get reservation.fd with
    | none =>
      have counts := counts_install pinned retained inside old pin.key.index cloexec
        (t.storage.reserved reservation.fd)
      show Sound who (Core.writeSlot _ _ _ _) pinned (ledger.deliver (delivered nothing)) ∧
        core.NamesAll (delivered nothing)
      rw [silent]
      refine ⟨⟨tables, ?_⟩, namesAll_nil core⟩
      rw [unclaimed, counts]
      exact books
    | some entry =>
      have counts := counts_replace pinned retained old pin.key.index cloexec
        (t.storage.reserved reservation.fd)
      have owed : 0 < ((⟨core.naming, pinned⟩ : Counts).addRef pin.key.index).refs entry.ofd :=
        Nat.lt_add_right _ (naming_pos there old)
      rcases drops store _ ledger entry.ofd books owed with
        ⟨answer, dropped, gone, after, same⟩
      show Settles core _ (drop entry.ofd store).1 (Core.withStore _ (drop entry.ofd store).2)
      rw [gone]
      refine ⟨⟨tables.withStore dropped, ?_⟩, namesAll_of_entry there old same⟩
      show Books dropped ⟨Core.naming (Core.writeSlot _ _ _ _), pinned⟩ _
      rw [unclaimed, counts]
      exact after
  · exact Settles.refused _ (Command.bind_of_error (onStore_error ran))

end Reservations

end FdCore
end Carrick
