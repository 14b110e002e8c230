import Carrick.FdCore.Operations

namespace Carrick
namespace FdCore

open Foundation

/-!
# Operations on whole tables

Sweeping the slots of a table, giving a table back, creating, growing and
copying one.  The operations that take an extent may leave a trace when they
refuse: a table record that is free again with another generation.
-/

/-! ## Replacing a record and the free list -/

section Records

variable {who : Nat} {core : Core} {pinned : List OfdKey} {ledger : Ledger} {index : Nat}
  {t : TableRecord}

/-- The core with one record and the free list replaced. -/
def Core.withTable (core : Core) (index : Nat) (record : TableRecord) (free : List Nat) : Core :=
  { core with tables := core.tables.set index record, freeTables := free }

theorem TablesSound.withTable (sound : TablesSound who core)
    (there : core.tables[index]? = some t) {new : TableRecord} {free : List Nat}
    (consistent : Consistent new.storage)
    (empty : new.state = .free -> new.storage = TableStorage.empty ∧ new.extent = Extent.empty)
    (others : ∀ other ∈ free, other ≠ index -> other ∈ core.freeTables)
    (own : index ∈ free -> new.state = .free) (nodup : free.Nodup) :
    TablesSound who (core.withTable index new free) := by
  have self : (core.withTable index new free).tables[index]? = some new := setTable_self there new
  have other : ∀ other, other ≠ index ->
      (core.withTable index new free).tables[other]? = core.tables[other]? :=
    fun other different => setTable_other different new
  refine ⟨sound.identity, ?_, ?_, ?_, nodup⟩
  · intro place found present
    by_cases same : place = index
    · subst same
      rw [self, Option.some.injEq] at present
      rw [<- present]
      exact consistent
    · rw [other place same] at present
      exact sound.consistent place found present
  · intro place found present isFree
    by_cases same : place = index
    · subst same
      rw [self, Option.some.injEq] at present
      rw [<- present] at isFree ⊢
      exact empty isFree
    · rw [other place same] at present
      exact sound.free_empty place found present isFree
  · intro place listed
    by_cases same : place = index
    · subst same
      exact ⟨new, self, own listed⟩
    · rw [other place same]
      exact sound.free_listed place (others place listed same)

theorem sound_withTable (sound : Sound who core pinned ledger)
    (there : core.tables[index]? = some t) {new : TableRecord} {free : List Nat}
    (tables : TablesSound who (core.withTable index new free))
    (same : ∀ ofd, new.storage.naming ofd = t.storage.naming ofd) :
    Sound who (core.withTable index new free) pinned ledger := by
  refine ⟨tables, ?_⟩
  have counts : (⟨(core.withTable index new free).naming, pinned⟩ : Counts) =
      ⟨core.naming, pinned⟩ := by
    refine Counts.ext ?_ rfl
    intro ofd
    have moved : (core.withTable index new free).naming ofd + t.storage.naming ofd =
        core.naming ofd + new.storage.naming ofd := naming_setTable there new ofd
    have equal := same ofd
    show (core.withTable index new free).naming ofd = core.naming ofd
    omega
  rw [counts]
  exact sound.books

theorem TablesSound.not_listed (sound : TablesSound who core)
    (there : core.tables[index]? = some t) (busy : t.state ≠ .free) : index ∉ core.freeTables := by
  intro listed
  rcases sound.free_listed index listed with ⟨found, present, free⟩
  rw [there, Option.some.injEq] at present
  rw [present] at busy
  exact busy free

theorem naming_of_vacant {storage : TableStorage} (vacant : ∀ fd, storage.get fd = none)
    (ofd : Nat) : storage.naming ofd = 0 := by
  unfold TableStorage.naming
  refine tally_eq_zero ?_
  intro slot listed
  rcases List.getElem?_of_mem listed with ⟨fd, there⟩
  have entry := vacant fd
  unfold TableStorage.get TableStorage.slotAt at entry
  rw [List.getD_eq_getElem?_getD, there, Option.getD_some] at entry
  unfold DescriptorSlot.naming
  rw [entry]
  rfl

theorem naming_empty (ofd : Nat) : TableStorage.empty.naming ofd = 0 :=
  rfl

end Records

/-! ## Sweeping -/

/-- A sweep changes only the slots of its table, and what is left was there. -/
structure Swept (t after : TableRecord) : Prop where
  record : after = t.withStorage after.storage
  kept : ∀ fd entry, after.storage.get fd = some entry -> t.storage.get fd = some entry

theorem Swept.refl (t : TableRecord) : Swept t t :=
  ⟨rfl, fun _ _ found => found⟩

theorem Swept.trans {first second third : TableRecord} (earlier : Swept first second)
    (later : Swept second third) : Swept first third := by
  refine ⟨?_, fun fd entry found => earlier.kept fd entry (later.kept fd entry found)⟩
  rw [later.record, earlier.record]
  rfl

theorem Swept.empties {t after : TableRecord} (swept : Swept t after) {fd : Nat}
    (empty : t.storage.get fd = none) : after.storage.get fd = none := by
  cases found : after.storage.get fd with
  | none => rfl
  | some entry =>
    rw [swept.kept fd entry found] at empty
    cases empty

section Sweeping

variable {who : Nat} {core : Core} {pinned : List OfdKey} {ledger : Ledger} {index : Nat}
  {t : TableRecord}

/-- The accounts while a sweep is under way. -/
def Sweeping (who : Nat) (pinned : List OfdKey) (ledger : Ledger) (index : Nat) (t : TableRecord)
    (cleared : Nat -> Prop) (released : List Release) (core : Core) : Prop :=
  Sound who core pinned (ledger.deliver released) ∧
    (∀ release ∈ released,
      ∃ fd entry, t.storage.get fd = some entry ∧ entry.ofd = release.key.index) ∧
    ∃ now, core.tables[index]? = some now ∧ Swept t now ∧
      ∀ fd, cleared fd -> now.storage.get fd = none

theorem Sweeping.namesAll {cleared : Nat -> Prop} {released : List Release} {after : Core}
    {original : TableRecord} (there : core.tables[index]? = some original)
    (slots : original.storage = t.storage)
    (sweeping : Sweeping who pinned ledger index t cleared released after) :
    core.NamesAll released := by
  intro release listed
  rcases sweeping.2.1 release listed with ⟨fd, entry, found, same⟩
  rw [<- slots] at found
  rw [<- same]
  exact naming_pos there found

theorem closeLocked_sweeping (sound : Sound who core pinned ledger)
    (there : core.tables[index]? = some t) {fd : Nat} {entry : Entry}
    (found : t.storage.get fd = some entry) :
    ∃ answer after, Core.closeLocked index fd core = (.ok answer, after) ∧
      Sweeping who pinned ledger index t (fun other => other = fd) answer.toList after := by
  have atFd : Core.entryAt t.storage (fd : Int) = some entry := by
    unfold Core.entryAt
    rw [if_neg (by omega), Int.toNat_natCast]
    exact found
  have inside := TableStorage.lt_capacity_of_get found
  rcases closeLockedWith_sound dropRef_drops sound there atFd with ⟨answer, store, ran, after, same⟩
  rw [Int.toNat_natCast] at ran after
  have vacated : ∀ other, (t.storage.write fd ⟨none, t.storage.reserved fd⟩).get other =
      if other = fd then none else t.storage.get other := by
    intro other
    unfold TableStorage.get
    rw [TableStorage.slotAt_write inside]
    split_ifs
    · rfl
    · rfl
  refine ⟨answer, _, ran, after, fun release listed => ⟨fd, entry, found, (same release listed).symm⟩,
    t.withStorage (t.storage.write fd ⟨none, t.storage.reserved fd⟩),
    writeSlot_table there _, ⟨rfl, ?_⟩, ?_⟩
  · intro other remaining present
    have present : (t.storage.write fd ⟨none, t.storage.reserved fd⟩).get other =
      some remaining := present
    rw [vacated] at present
    split_ifs at present
    exact present
  · intro other atFd
    show TableStorage.get (t.storage.write _ _) other = none
    rw [vacated, if_pos atFd]

/-- What a sweep asks of its choice: it answers, changes nothing, and chooses
every slot if `all`. -/
def Chooses (who : Nat) (pinned : List OfdKey) (all : Prop) (selects : Entry -> Core.Action Bool) :
    Prop :=
  ∀ (core : Core) (ledger : Ledger) (index fd : Nat) (t : TableRecord) (entry : Entry),
    Sound who core pinned ledger -> core.tables[index]? = some t ->
    t.storage.get fd = some entry ->
    ∃ chosen, selects entry core = (.ok chosen, core) ∧ (all -> chosen = true)

/-- Closing the chosen slots delivers what they were the last to hold. -/
theorem closeSelected_returns {all : Prop} {selects : Entry -> Core.Action Bool}
    (chooses : Chooses who pinned all selects) (sound : Sound who core pinned ledger)
    (there : core.tables[index]? = some t) (fds : List Nat) :
    ∃ released after, Core.closeSelected index selects fds core = (.ok released, after) ∧
      Sweeping who pinned ledger index t (fun fd => all ∧ fd ∈ fds) released after := by
  unfold Core.closeSelected
  refine Command.collect_returns
    (fun done gathered core =>
      Sweeping who pinned ledger index t (fun fd => all ∧ fd ∈ done) gathered core)
    ?_ fds [] [] core
    ⟨sound, fun _ wrong => absurd wrong (by simp), t, there, Swept.refl t,
      fun _ wrong => absurd wrong.2 (by simp)⟩
  rintro done fd gathered state ⟨current, earlierNamed, now, present, sweeps, cleared⟩
  unfold Core.storageOf
  rw [Command.observe_bind_apply, tableAt_eq present]
  cases found : now.storage.get fd with
  | none =>
    refine ⟨[], state, rfl, ?_⟩
    rw [List.append_nil]
    refine ⟨current, earlierNamed, now, present, sweeps, ?_⟩
    rintro other ⟨every, listed⟩
    rcases List.mem_append.mp listed with earlier | last
    · exact cleared other ⟨every, earlier⟩
    · rw [List.mem_singleton.mp last]
      exact found
  | some entry =>
    rcases chooses state _ index fd now entry current present found with ⟨chosen, asked, always⟩
    simp only
    rw [Command.bind_of_ok asked]
    cases chosen with
    | false =>
      refine ⟨[], state, rfl, ?_⟩
      rw [List.append_nil]
      exact ⟨current, earlierNamed, now, present, sweeps,
        fun _ wrong => absurd (always wrong.1) (by simp)⟩
    | true =>
      rcases closeLocked_sweeping current present found with
        ⟨answer, after, ran, settled, named, later, presentLater, sweepsLater, gone⟩
      refine ⟨answer.toList, after, ?_, ?_⟩
      · rw [if_pos rfl, Command.bind_of_ok ran, Command.pure_apply]
      rw [Ledger.deliver_deliver] at settled
      refine ⟨settled, ?_, later, presentLater, sweeps.trans sweepsLater, ?_⟩
      · intro release listed
        rcases List.mem_append.mp listed with earlier | last
        · exact earlierNamed release earlier
        · rcases named release last with ⟨place, entry, found, same⟩
          exact ⟨place, entry, sweeps.kept place entry found, same⟩
      · rintro other ⟨every, listed⟩
        rcases List.mem_append.mp listed with earlier | last
        · exact sweepsLater.empties (cleared other ⟨every, earlier⟩)
        · exact gone other (List.mem_singleton.mp last)

theorem markCloexec_returns (sound : Sound who core pinned ledger)
    (there : core.tables[index]? = some t) (fds : List Nat) :
    ∃ released after, Core.markCloexec index fds core = (.ok released, after) ∧
      released = [] ∧ Sound who after pinned ledger ∧ ∃ now, after.tables[index]? = some now := by
  unfold Core.markCloexec
  refine Command.collect_returns (fun _ gathered core =>
    gathered = [] ∧ Sound who core pinned ledger ∧ ∃ now, core.tables[index]? = some now)
    ?_ fds [] [] core ⟨rfl, sound, t, there⟩
  rintro done fd gathered state ⟨silent, current, now, present⟩
  unfold Core.storageOf
  rw [Command.observe_bind_apply, tableAt_eq present]
  cases found : now.storage.get fd with
  | none =>
    refine ⟨[], state, rfl, ?_⟩
    rw [List.append_nil]
    exact ⟨silent, current, now, present⟩
  | some entry =>
    have written : Core.editStorage index
        (fun storage => storage.update fd { entry with cloexec := true }) state =
          (.ok (), state.writeSlot index fd
            ⟨some { entry with cloexec := true }, now.storage.reserved fd⟩) := by
      rw [<- tableAt_eq present]
      rfl
    simp only
    rw [Command.bind_of_ok written]
    refine ⟨[], _, rfl, ?_⟩
    rw [List.append_nil]
    refine ⟨silent, sound_rewrite current present (TableStorage.lt_capacity_of_get found) ?_, _,
      writeSlot_table present _⟩
    rw [found]
    rfl

theorem chooses_always (who : Nat) (pinned : List OfdKey) :
    Chooses who pinned True (fun _ => pure true) :=
  fun _ _ _ _ _ _ _ _ _ => ⟨true, rfl, fun _ => rfl⟩

section Sound

variable (sound : Sound who core pinned ledger)

include sound

theorem closeRange_settles (venue : Venue) (table : TableId) (first last : Nat) (cloexec : Bool) :
    Command.Ends (Settles core (fun answer after =>
      Sound who after pinned (ledger.deliver answer) ∧ core.NamesAll answer))
      (Core.closeRange venue table first last cloexec) core := by
  unfold Core.closeRange Core.lock
  refine Settles.require ?_
  intro _
  refine settles_lock venue table _ ?_
  intro t there _
  simp only
  split_ifs
  · rcases markCloexec_returns sound there _ with ⟨released, after, ran, silent, settled, _⟩
    rw [silent] at ran
    exact Settles.returned ran ⟨settled, namesAll_nil core⟩
  · rcases closeSelected_returns (chooses_always who pinned) sound there _ with
      ⟨released, after, ran, sweeping⟩
    exact Settles.returned ran ⟨sweeping.1, sweeping.namesAll there rfl⟩

theorem exec_settles (venue : Venue) (table : TableId) :
    Command.Ends (Settles core (fun answer after =>
      Sound who after pinned (ledger.deliver answer) ∧ core.NamesAll answer))
      (Core.exec venue table) core := by
  unfold Core.exec Core.lock
  refine settles_lock venue table _ ?_
  intro t there _
  have chooses : Chooses who pinned False (fun entry => pure entry.cloexec) :=
    fun _ _ _ _ _ entry _ _ _ => ⟨entry.cloexec, rfl, fun wrong => wrong.elim⟩
  rcases closeSelected_returns chooses sound there _ with ⟨released, after, ran, sweeping⟩
  exact Settles.returned ran ⟨sweeping.1, sweeping.namesAll there rfl⟩

theorem freeTable_sound (there : core.tables[index]? = some t) (busy : t.state ≠ .free)
    (vacant : ∀ fd, t.storage.get fd = none) :
    ∃ emptied after, Core.freeTable index core = (.ok (), emptied) ∧
      Core.pushTable index emptied = (.ok (), after) ∧ Sound who after pinned ledger := by
  have notListed := sound.tables.not_listed there busy
  have named : ∀ ofd, t.emptied.storage.naming ofd = t.storage.naming ofd := by
    intro ofd
    rw [naming_of_vacant vacant]
    exact naming_empty ofd
  have self : (core.setTable index t.emptied).tableAt index = t.emptied :=
    tableAt_eq (setTable_self there _)
  refine ⟨core.setTable index t.emptied, core.withTable index t.emptied
    (if t.emptied.generation < wordLimit - 1 then index :: core.freeTables else core.freeTables),
    ?_, ?_, ?_⟩
  · unfold Core.freeTable
    rw [Command.edit_apply, tableAt_eq there]
  · unfold Core.pushTable
    rw [Command.edit_apply, self]
    split_ifs
    · rfl
    · rfl
  refine sound_withTable sound there ?_ named
  refine sound.tables.withTable there empty_consistent (fun _ => ⟨rfl, rfl⟩) ?_
    (fun _ => rfl) ?_
  · intro other listed different
    split_ifs at listed
    · rcases List.mem_cons.mp listed with same | older
      · exact absurd same different
      · exact older
    · exact listed
  · split_ifs
    · exact List.nodup_cons.mpr ⟨notListed, sound.tables.free_nodup⟩
    · exact sound.tables.free_nodup

theorem destroyTableInStates_settles (venue : Venue) (table : TableId) {states : List TableState}
    (used : TableState.free ∉ states) :
    Command.Ends (Settles core (fun answer after =>
      Sound who after pinned (ledger.deliver answer.2) ∧ core.NamesAll answer.2))
      (Core.destroyTableInStates venue table states) core := by
  unfold Core.destroyTableInStates
  refine settles_lock venue table _ ?_
  intro t there state
  rcases closeSelected_returns (chooses_always who pinned) sound there
    (List.range t.storage.capacity) with ⟨released, middle, ran, sweeping⟩
  have named := sweeping.namesAll there rfl
  rcases sweeping with ⟨settled, _, now, present, swept, gone⟩
  have busy : now.state ≠ .free := by
    rw [swept.record]
    rintro isFree
    exact used (isFree ▸ state)
  have vacant : ∀ fd, now.storage.get fd = none := by
    intro fd
    by_cases inside : fd < t.storage.capacity
    · exact gone fd ⟨trivial, List.mem_range.mpr inside⟩
    · refine swept.empties ?_
      unfold TableStorage.get
      rw [TableStorage.slotAt_beyond (Nat.le_of_not_lt inside)]
      rfl
  rcases freeTable_sound settled present busy vacant with ⟨emptied, after, freed, pushed, final⟩
  unfold Command.Ends
  rw [Command.bind_of_ok ran, Command.bind_of_ok freed, Command.bind_of_ok pushed]
  exact ⟨final, named⟩

theorem Sound.withRetired (retired : List Nat) :
    Sound who { core with retiredTables := retired } pinned ledger :=
  ⟨⟨sound.tables.identity, sound.tables.consistent, sound.tables.free_empty,
    sound.tables.free_listed, sound.tables.free_nodup⟩, sound.books⟩

theorem sound_setTable (there : core.tables[index]? = some t) (busy : t.state ≠ .free)
    (new : TableRecord) (stays : new.state ≠ .free) (consistent : Consistent new.storage)
    (same : ∀ ofd, new.storage.naming ofd = t.storage.naming ofd) :
    Sound who (core.setTable index new) pinned ledger :=
  sound_withTable sound there
    (sound.tables.withTable there consistent (fun free => absurd free stays)
      (fun _ listed _ => listed)
      (fun listed => absurd listed (sound.tables.not_listed there busy)) sound.tables.free_nodup)
    same

theorem setLimit_settles (venue : Venue) (table : TableId) (limit : Nat) :
    Command.Ends (Settles core (fun _ after => Sound who after pinned ledger))
      (Core.setLimit venue table limit) core := by
  unfold Core.setLimit Core.lock
  refine Settles.require ?_
  intro _
  refine settles_lock venue table _ ?_
  intro t there state
  have live : t.state = .live := by simpa using state
  have busy : t.state ≠ .free := by
    rw [live]
    exact nofun
  exact sound_setTable sound there busy _ busy (sound.tables.consistent _ t there) (fun _ => rfl)

theorem retireTable_settles (venue : Venue) (table : TableId) (releaseHere : Description -> Bool) :
    Command.Ends (Settles core (fun answer after =>
      Sound who after pinned (ledger.deliver answer) ∧ core.NamesAll answer))
      (Core.retireTable venue table releaseHere) core := by
  unfold Core.retireTable Core.lock
  refine settles_lock venue table _ ?_
  intro t there state
  have live : t.state = .live := by simpa using state
  have busy : t.state ≠ .free := by
    rw [live]
    exact nofun
  have retired := sound_setTable sound there busy { t with state := .retired }
    nofun (sound.tables.consistent _ t there) (fun _ => rfl)
  have chooses : Chooses who pinned False (fun entry => do
      let record <- Core.onStore (OfdStore.ofd entry.ofd)
      pure (releaseHere record.description)) := by
    intro core ledger index fd t entry sound there found
    rcases sound.books.record_of_count .ref (naming_pos there found) with ⟨record, present⟩
    refine ⟨releaseHere record.description, ?_, fun wrong => wrong.elim⟩
    have read : OfdStore.ofd entry.ofd core.store = (.ok record, core.store) := by
      unfold OfdStore.ofd
      rw [Command.observe_bind_apply, present]
      rfl
    exact (Command.bind_of_ok (onStore_ok read)).trans rfl
  rcases closeSelected_returns chooses retired (setTable_self there _)
    (List.range t.storage.capacity) with ⟨released, after, ran, sweeping⟩
  have named : core.NamesAll released := by
    refine Sweeping.namesAll there ?_ sweeping
    rfl
  unfold Command.Ends
  rw [Command.edit_bind_apply, Command.attempt_bind_apply, ran]
  exact ⟨sweeping.1.withRetired _, named⟩

theorem takeRetiredTable_settles :
    Command.Ends (Settles core (fun _ after => Sound who after pinned ledger))
      Core.takeRetiredTable core := by
  unfold Core.takeRetiredTable
  refine Command.Ends.observe ?_
  cases core.retiredTables.head? with
  | none => exact sound
  | some index =>
    refine Command.Ends.observe ?_
    cases core.tables[index]? with
    | none => exact sound
    | some record => exact sound.withRetired _

end Sound

end Sweeping

end FdCore
end Carrick
