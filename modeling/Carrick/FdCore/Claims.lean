import Carrick.FdCore.Deferral

namespace Carrick
namespace FdCore

open Foundation
open Foundation.Command (Keeps Relates)

/-!
# What the operations leave of a claimed slot

A claim is a bit of a slot beside its entry.  An operation other than those
that take or settle a claim leaves the bits of every table as they are, and at
a claimed slot it can only remove the entry or change its close-on-exec flag.
The rules below follow a command over the tables alone: whatever happens in the
store of descriptions is quiet.
-/

/-- What may happen to a slot: its claim stays, and under a claim the entry
stays the same description or goes away. -/
structure SparesSlot (before after : DescriptorSlot) : Prop where
  claim : after.reserved = before.reserved
  entry : before.reserved = true -> after.entry = none ∨
    after.entry.map Entry.ofd = before.entry.map Entry.ofd

/-- What may happen to a table that stays in place: its generation and whether
it is free stay, and no slot loses a claim that a receipt stands for. -/
structure SameClaims (before after : TableRecord) : Prop where
  generation : after.generation = before.generation
  free : after.state = .free <-> before.state = .free
  slots : ∀ fd, SparesSlot (before.storage.slotAt fd) (after.storage.slotAt fd)

/-- The record at a place of a list of tables. -/
def recordAt (tables : List TableRecord) (index : Nat) : TableRecord :=
  tables.getD index TableRecord.initial

/-- Every table stays in place with its claims. -/
def Spares (before after : List TableRecord) : Prop :=
  ∀ index, SameClaims (recordAt before index) (recordAt after index)

theorem SparesSlot.refl (slot : DescriptorSlot) : SparesSlot slot slot :=
  ⟨rfl, fun _ => .inr rfl⟩

theorem SparesSlot.trans {first second third : DescriptorSlot} (earlier : SparesSlot first second)
    (later : SparesSlot second third) : SparesSlot first third := by
  refine ⟨later.claim.trans earlier.claim, ?_⟩
  intro claimed
  rcases later.entry (earlier.claim.trans claimed) with gone | same
  · exact .inl gone
  · rcases earlier.entry claimed with gone | kept
    · rw [gone, Option.map_none, Option.map_eq_none_iff] at same
      exact .inl same
    · exact .inr (same.trans kept)

theorem SameClaims.refl (t : TableRecord) : SameClaims t t :=
  ⟨rfl, Iff.rfl, fun _ => SparesSlot.refl _⟩

theorem SameClaims.trans {first second third : TableRecord} (earlier : SameClaims first second)
    (later : SameClaims second third) : SameClaims first third :=
  ⟨later.generation.trans earlier.generation, later.free.trans earlier.free,
    fun fd => (earlier.slots fd).trans (later.slots fd)⟩

theorem Spares.refl (tables : List TableRecord) : Spares tables tables :=
  fun _ => SameClaims.refl _

theorem Spares.trans {first second third : List TableRecord} (earlier : Spares first second)
    (later : Spares second third) : Spares first third :=
  fun index => (earlier index).trans (later index)

section Records

variable {tables : List TableRecord} {index : Nat} {t : TableRecord}

theorem recordAt_of (there : tables[index]? = some t) : recordAt tables index = t := by
  unfold recordAt
  rw [List.getD_eq_getElem?_getD, there, Option.getD_some]

theorem recordAt_set (there : tables[index]? = some t) (new : TableRecord) (other : Nat) :
    recordAt (tables.set index new) other = if other = index then new else recordAt tables other := by
  have inside := (List.getElem?_eq_some_iff.mp there).1
  unfold recordAt
  rw [List.getD_eq_getElem?_getD, List.getElem?_set]
  by_cases same : other = index
  · rw [if_pos same.symm, if_pos (same ▸ inside), if_pos same, Option.getD_some]
  · rw [if_neg (Ne.symm same), if_neg same, List.getD_eq_getElem?_getD]

theorem Spares.set (there : tables[index]? = some t) {new : TableRecord}
    (same : SameClaims t new) : Spares tables (tables.set index new) := by
  intro other
  rw [recordAt_set there]
  by_cases here : other = index
  · rw [if_pos here, here, recordAt_of there]
    exact same
  · rw [if_neg here]
    exact SameClaims.refl _

theorem slotAt_write_beyond {storage : TableStorage} {fd : Nat} (beyond : storage.capacity <= fd)
    (slot : DescriptorSlot) (other : Nat) :
    (storage.write fd slot).slotAt other = storage.slotAt other := by
  unfold TableStorage.write TableStorage.slotAt
  rw [List.set_eq_of_length_le beyond]

/-- Writing a slot of any table spares the claims if it spares the slot. -/
theorem sameClaims_write {fd : Nat} {slot : DescriptorSlot}
    (spares : SparesSlot (t.storage.slotAt fd) slot) :
    SameClaims t (t.withStorage (t.storage.write fd slot)) := by
  refine ⟨rfl, Iff.rfl, ?_⟩
  intro other
  by_cases inside : fd < t.storage.capacity
  · show SparesSlot _ ((t.storage.write fd slot).slotAt other)
    rw [TableStorage.slotAt_write inside]
    split_ifs with same
    · rw [same]
      exact spares
    · exact SparesSlot.refl _
  · show SparesSlot _ ((t.storage.write fd slot).slotAt other)
    rw [slotAt_write_beyond (Nat.le_of_not_lt inside)]
    exact SparesSlot.refl _

theorem editStorage_tables (core : Core) (index : Nat) (change : TableStorage -> TableStorage) :
    (Core.editStorage index change core).2.tables =
      core.tables.set index ((recordAt core.tables index).withStorage
        (change (recordAt core.tables index).storage)) :=
  rfl

/-- Editing the storage at a place spares the claims if it does so there. -/
theorem Spares.edit {change : TableStorage -> TableStorage}
    (same : SameClaims (recordAt tables index)
      ((recordAt tables index).withStorage (change (recordAt tables index).storage))) :
    Spares tables (tables.set index ((recordAt tables index).withStorage
      (change (recordAt tables index).storage))) := by
  cases there : tables[index]? with
  | none =>
    rw [List.set_eq_of_length_le (List.getElem?_eq_none_iff.mp there)]
    exact Spares.refl tables
  | some t => exact Spares.set there (by rw [recordAt_of there] at same ⊢; exact same)

end Records

/-! ## Following a command -/

/-- From these tables the command spares the claims, however it ends. -/
def SparesFrom {α : Type} (tables : List TableRecord) (command : Core.Action α) : Prop :=
  ∀ core : Core, core.tables = tables -> Spares tables (command core).2.tables

/-- The command spares the claims from any tables. -/
def Sparing {α : Type} (command : Core.Action α) : Prop :=
  ∀ tables, SparesFrom tables command

instance onStore_tables {α : Type} (action : OfdStore.Action α) :
    Keeps Core.tables (Core.onStore action) where
  same := fun _ => rfl

/-- A lock is given for the table, the incarnation and the states asked for. -/
theorem lock_matches (core : Core) (venue : Venue) (id : TableId) (states : List TableState) :
    Command.Ends (Settles core (fun t after => after = core ∧ core.tables[id.index]? = some t ∧
      t.state ∈ states ∧ t.generation = id.generation ∧ id.authority = core.identity))
      (Core.lockInStates venue id states) core := by
  unfold Core.lockInStates
  refine settles_authenticate ?_
  intro _
  refine Settles.require ?_
  intro own
  refine Command.Ends.observe ?_
  refine Settles.demand ?_
  intro t there
  refine Settles.require ?_
  intro _
  refine Settles.require ?_
  intro matching
  refine Settles.require ?_
  intro _
  exact ⟨rfl, there, (of_decide_eq_true matching).1, (of_decide_eq_true matching).2,
    of_decide_eq_true own⟩

namespace SparesFrom

variable {tables : List TableRecord} {α β : Type}

theorem quiet {command : Core.Action α} [keeps : Keeps Core.tables command] :
    SparesFrom tables command := by
  intro core same
  have kept : (command core).2.tables = core.tables := keeps.same core
  rw [kept, same]
  exact Spares.refl tables

variable {next : α -> Core.Action β}

/-- The rule for a sequence: the second part starts from tables that the first
one spared. -/
theorem bind {first : Core.Action α} (starts : SparesFrom tables first)
    (goes : ∀ value after, Spares tables after -> SparesFrom after (next value)) :
    SparesFrom tables (first >>= next) := by
  intro core same
  have step := starts core same
  rw [Command.bind_apply]
  split
  · rename_i value middle answered
    rw [answered] at step
    exact step.trans (goes value _ step middle rfl)
  · rename_i reason middle answered
    rw [answered] at step
    exact step

theorem quietly {first : Core.Action α}
    [keeps : Keeps Core.tables first] (rest : ∀ value, SparesFrom tables (next value)) :
    SparesFrom tables (first >>= next) := by
  intro core same
  have kept := keeps.same core
  simp only at kept
  rw [Command.bind_apply]
  split
  · rename_i value middle answered
    rw [answered] at kept
    exact rest value middle (kept.trans same)
  rename_i reason middle answered
  rw [answered] at kept
  have unchanged : middle.tables = tables := kept.trans same
  show Spares tables middle.tables
  rw [unchanged]
  exact Spares.refl tables

theorem require {condition : Bool} {reason : Error} {next : Unit -> Core.Action β}
    (rest : condition = true -> SparesFrom tables (next ())) :
    SparesFrom tables (Command.require condition reason >>= next) := by
  cases condition with
  | false => exact @quiet _ _ _ ⟨fun _ => rfl⟩
  | true => exact rest rfl

theorem demand {found : Option α} {reason : Error}
    (rest : ∀ value, found = some value -> SparesFrom tables (next value)) :
    SparesFrom tables (Command.demand found reason >>= next) := by
  cases found with
  | none => exact @quiet _ _ _ ⟨fun _ => rfl⟩
  | some value => exact rest value rfl

theorem ofExcept {answer : Except Error α}
    (rest : ∀ value, answer = .ok value -> SparesFrom tables (next value)) :
    SparesFrom tables (Command.ofExcept answer >>= next) := by
  cases answer with
  | error reason => exact @quiet _ _ _ ⟨fun _ => rfl⟩
  | ok value => exact rest value rfl

theorem lock {venue : Venue} {id : TableId} {states : List TableState}
    {next : TableRecord -> Core.Action β}
    (rest : ∀ t, tables[id.index]? = some t -> SparesFrom tables (next t)) :
    SparesFrom tables (Core.lockInStates venue id states >>= next) := by
  intro core same
  have locked := lock_matches core venue id states
  cases ran : Core.lockInStates venue id states core with
  | mk outcome after =>
    cases outcome with
    | error reason =>
      have unchanged : after = core := locked.of_eq ran
      rw [Command.bind_of_error ran, unchanged, same]
      exact Spares.refl tables
    | ok t =>
      rcases locked.of_eq ran with ⟨unchanged, there, _⟩
      rw [same] at there
      rw [Command.bind_of_ok ran, unchanged]
      exact rest t there core same

theorem attempt {command : Core.Action α} (spares : SparesFrom tables command) :
    SparesFrom tables (Command.attempt command) :=
  spares

theorem storage {index : Nat} {next : TableStorage -> Core.Action β}
    (rest : SparesFrom tables (next (recordAt tables index).storage)) :
    SparesFrom tables (Core.storageOf index >>= next) := by
  intro core same
  have read : (core.tableAt index).storage = (recordAt tables index).storage := by
    rw [<- same]
    rfl
  have held := rest core same
  rw [<- read] at held
  exact held

theorem editStorage {index : Nat} {change : TableStorage -> TableStorage}
    (spares : SameClaims (recordAt tables index)
      ((recordAt tables index).withStorage (change (recordAt tables index).storage))) :
    SparesFrom tables (Core.editStorage index change) := by
  intro core same
  rw [editStorage_tables, same]
  exact Spares.edit spares

theorem install {index fd : Nat}
    (unclaimed : (recordAt tables index).storage.reserved fd = false) (entry : Entry) :
    SparesFrom tables (Core.install index fd entry) := by
  refine editStorage (sameClaims_write ⟨rfl, ?_⟩)
  intro claimed
  exact absurd (claimed.symm.trans unclaimed) (by decide)

theorem vacate (index fd : Nat) :
    SparesFrom tables (Core.editStorage index (fun storage => storage.vacate fd)) :=
  editStorage (sameClaims_write ⟨rfl, fun _ => .inl rfl⟩)

theorem update {index fd : Nat} {entry : Entry} (new : Entry)
    (found : (recordAt tables index).storage.get fd = some entry) (same : new.ofd = entry.ofd) :
    SparesFrom tables (Core.editStorage index (fun storage => storage.update fd new)) := by
  refine editStorage (sameClaims_write ⟨rfl, ?_⟩)
  intro _
  have found : ((recordAt tables index).storage.slotAt fd).entry = some entry := found
  rw [found, Option.map_some, Option.map_some, same]
  exact .inr rfl

end SparesFrom

theorem Spares.reserved {before after : List TableRecord} (spares : Spares before after)
    (index fd : Nat) :
    (recordAt after index).storage.reserved fd = (recordAt before index).storage.reserved fd :=
  ((spares index).slots fd).claim

theorem sparing_collect {ι α : Type} {command : ι -> Core.Action (List α)}
    (spares : ∀ item, Sparing (command item)) (items : List ι) :
    Sparing (Command.collect command items) := by
  induction items with
  | nil => exact fun _ => @SparesFrom.quiet _ _ _ (Keeps.pure [])
  | cons item rest ih =>
    intro tables
    unfold Command.collect
    refine (spares item tables).bind ?_
    intro _ after _
    refine (ih after).bind ?_
    intro _ last _
    exact SparesFrom.quiet

/-! ## The operations that close -/

section Closing

variable {ρ : Type} {drop : Nat -> OfdStore.Action ρ} {nothing : ρ}

theorem closeLockedWith_spares (index : Nat) (fd : Int) :
    Sparing (Core.closeLockedWith drop index fd) := by
  intro tables
  unfold Core.closeLockedWith
  refine SparesFrom.storage ?_
  refine SparesFrom.demand ?_
  intro entry _
  refine (SparesFrom.vacate index fd.toNat).bind ?_
  intro _ after _
  exact SparesFrom.quiet

theorem closeWith_spares (venue : Venue) (table : TableId) (fd : Int) :
    Sparing (Core.closeWith drop venue table fd) := by
  intro tables
  unfold Core.closeWith Core.lock
  refine SparesFrom.lock ?_
  intro _ _
  exact closeLockedWith_spares _ _ _

theorem closeSelected_spares (index : Nat) (selects : Entry -> Core.Action Bool)
    [∀ entry, Keeps Core.tables (selects entry)] (fds : List Nat) :
    Sparing (Core.closeSelected index selects fds) := by
  refine sparing_collect ?_ fds
  intro fd tables
  refine SparesFrom.storage ?_
  cases (recordAt tables index).storage.get fd with
  | none => exact SparesFrom.quiet
  | some entry =>
    refine SparesFrom.quietly ?_
    intro chosen
    cases chosen with
    | false => exact @SparesFrom.quiet _ _ _ (Keeps.pure _)
    | true =>
      refine (closeLockedWith_spares index fd tables).bind ?_
      intro _ _ _
      exact SparesFrom.quiet

theorem markCloexec_spares (index : Nat) (fds : List Nat) : Sparing (Core.markCloexec index fds) := by
  refine sparing_collect ?_ fds
  intro fd tables
  refine SparesFrom.storage ?_
  cases found : (recordAt tables index).storage.get fd with
  | none => exact SparesFrom.quiet
  | some entry =>
    refine (SparesFrom.update { entry with cloexec := true } found rfl).bind ?_
    intro _ _ _
    exact SparesFrom.quiet

theorem closeRange_spares (venue : Venue) (table : TableId) (first last : Nat) (cloexec : Bool) :
    Sparing (Core.closeRange venue table first last cloexec) := by
  intro tables
  unfold Core.closeRange Core.lock
  refine SparesFrom.require ?_
  intro _
  refine SparesFrom.lock ?_
  intro t _
  simp only
  split_ifs
  · exact markCloexec_spares _ _ _
  · exact closeSelected_spares _ _ _ _

theorem exec_spares (venue : Venue) (table : TableId) : Sparing (Core.exec venue table) := by
  intro tables
  unfold Core.exec Core.lock
  refine SparesFrom.lock ?_
  intro t _
  exact closeSelected_spares _ _ _ _

/-- A retired table keeps its claims, of which none can be settled any more. -/
theorem retireTable_spares (venue : Venue) (table : TableId) (releaseHere : Description -> Bool) :
    Sparing (Core.retireTable venue table releaseHere) := by
  intro tables
  unfold Core.retireTable
  intro core same
  have locked := lock_matches core venue table [.live]
  cases ran : Core.lock venue table core with
  | mk outcome after =>
    cases outcome with
    | error reason =>
      have unchanged : after = core := locked.of_eq ran
      rw [Command.bind_of_error ran, unchanged, same]
      exact Spares.refl tables
    | ok t =>
      rcases locked.of_eq ran with ⟨unchanged, there, live, _⟩
      have live : t.state = .live := by simpa using live
      have marked : SameClaims t { t with state := .retired } := by
        refine ⟨rfl, ?_, fun _ => SparesSlot.refl _⟩
        rw [live]
        constructor
        · intro wrong
          cases wrong
        · intro wrong
          cases wrong
      have swept := closeSelected_spares table.index (fun entry => do
          let record <- Core.onStore (OfdStore.ofd entry.ofd)
          pure (releaseHere record.description))
        (List.range t.storage.capacity) _
        (core.setTable table.index { t with state := .retired }) rfl
      rw [Command.bind_of_ok ran, unchanged, Command.edit_bind_apply,
        Command.attempt_bind_apply]
      rw [<- same]
      exact (Spares.set there marked).trans swept

end Closing

/-! ## The operations that install -/

section Installing

variable {tables : List TableRecord} {ρ : Type} {drop : Nat -> OfdStore.Action ρ} {nothing : ρ}

/-- The storage of every table is summarised by its bitmap. -/
def AllConsistent (tables : List TableRecord) : Prop :=
  ∀ (index : Nat) (t : TableRecord), tables[index]? = some t -> Consistent t.storage

theorem allocate_unclaimed (consistent : AllConsistent tables) {index : Nat} {t : TableRecord}
    (there : tables[index]? = some t) {low fd : Nat} (found : allocate t.storage t.limit low = .ok fd) :
    (recordAt tables index).storage.reserved fd = false := by
  have free := (allocate_ok (consistent index t there) found).2.2.2
  unfold DescriptorSlot.isFree at free
  rw [Bool.and_eq_true, Bool.not_eq_true'] at free
  rw [recordAt_of there]
  exact free.2

instance authenticate_tables : Keeps Core.tables Core.authenticate := by
  unfold Core.authenticate
  infer_instance

instance checkPin_tables (pin : OfdPin) : Keeps Core.tables (Core.checkPin pin) := by
  unfold Core.checkPin
  infer_instance

theorem openDescriptor_spares (consistent : AllConsistent tables) (venue : Venue) (table : TableId)
    (min : Int) (description : Description) (cloexec : Bool) :
    SparesFrom tables (Core.openDescriptor venue table min description cloexec) := by
  unfold Core.openDescriptor Core.lock Core.allocateFd Core.cover
  refine SparesFrom.require ?_
  intro _
  refine SparesFrom.lock ?_
  intro t there
  refine SparesFrom.ofExcept ?_
  intro fd found
  refine SparesFrom.require ?_
  intro _
  refine SparesFrom.quietly ?_
  intro ofd
  refine (SparesFrom.install (allocate_unclaimed consistent there found) _).bind ?_
  intro _ _ _
  exact SparesFrom.quiet

theorem duplicateMin_spares (consistent : AllConsistent tables) (venue : Venue) {table : TableId}
    {t : TableRecord} (there : tables[table.index]? = some t) (old : Int) (min : Nat)
    (cloexec : Bool) :
    SparesFrom tables (Core.duplicateMin venue table t old min cloexec) := by
  unfold Core.duplicateMin Core.allocateFd Core.cover
  refine SparesFrom.demand ?_
  intro entry _
  refine SparesFrom.ofExcept ?_
  intro fd found
  refine SparesFrom.require ?_
  intro _
  refine SparesFrom.quietly ?_
  intro _
  refine (SparesFrom.install (allocate_unclaimed consistent there found) _).bind ?_
  intro _ _ _
  exact SparesFrom.quiet

theorem dup_spares (consistent : AllConsistent tables) (venue : Venue) (table : TableId)
    (old : Int) : SparesFrom tables (Core.dup venue table old) := by
  unfold Core.dup Core.lock
  refine SparesFrom.lock ?_
  intro t there
  exact duplicateMin_spares consistent venue there _ _ _

theorem dupfd_spares (consistent : AllConsistent tables) (venue : Venue) (table : TableId)
    (old min : Int) (cloexec : Bool) : SparesFrom tables (Core.dupfd venue table old min cloexec) := by
  unfold Core.dupfd Core.lock
  refine SparesFrom.lock ?_
  intro t there
  refine SparesFrom.demand ?_
  intro _ _
  refine SparesFrom.require ?_
  intro _
  exact duplicateMin_spares consistent venue there _ _ _

theorem replaceExactWith_spares (venue : Venue) {table : TableId} {t : TableRecord}
    (there : tables[table.index]? = some t) (ofd : Nat) (new : Int) (cloexec : Bool) :
    SparesFrom tables (Core.replaceExactWith drop nothing venue table t ofd new cloexec) := by
  unfold Core.replaceExactWith Core.cover
  refine SparesFrom.require ?_
  intro _
  refine SparesFrom.require ?_
  intro _
  refine SparesFrom.require ?_
  intro unclaimed
  have unclaimed : (recordAt tables table.index).storage.reserved new.toNat = false := by
    rw [recordAt_of there]
    simpa using unclaimed
  refine SparesFrom.require ?_
  intro _
  refine SparesFrom.quietly ?_
  intro _
  refine (SparesFrom.attempt (closeLockedWith_spares _ _ _)).bind ?_
  intro closed after spares
  have still : (recordAt after table.index).storage.reserved new.toNat = false :=
    (spares.reserved _ _).trans unclaimed
  have installs : ∀ value : ρ, SparesFrom after (do
      Core.install table.index new.toNat { ofd := ofd, cloexec := cloexec }
      pure value) := by
    intro value
    refine (SparesFrom.install still _).bind ?_
    intro _ _ _
    exact SparesFrom.quiet
  split
  · exact installs _
  · exact installs _
  · exact SparesFrom.quiet

theorem dup2With_spares (venue : Venue) (table : TableId) (old new : Int) :
    SparesFrom tables (Core.dup2With drop nothing venue table old new) := by
  unfold Core.dup2With Core.lock
  refine SparesFrom.lock ?_
  intro t there
  refine SparesFrom.demand ?_
  intro _ _
  split_ifs
  · exact SparesFrom.quiet
  · exact replaceExactWith_spares venue there _ _ _

theorem dup3With_spares (venue : Venue) (table : TableId) (old new : Int) (cloexec : Bool) :
    SparesFrom tables (Core.dup3With drop nothing venue table old new cloexec) := by
  unfold Core.dup3With Core.lock
  refine SparesFrom.require ?_
  intro _
  refine SparesFrom.lock ?_
  intro t there
  refine SparesFrom.demand ?_
  intro _ _
  exact replaceExactWith_spares venue there _ _ _

theorem installPin_spares (venue : Venue) (table : TableId) (target : Int) (pin : OfdPin)
    (cloexec : Bool) : SparesFrom tables (Core.installPin venue table target pin cloexec) := by
  unfold Core.installPin Core.lock Core.cover
  refine SparesFrom.quietly ?_
  intro _
  refine SparesFrom.lock ?_
  intro t there
  refine SparesFrom.require ?_
  intro _
  refine SparesFrom.require ?_
  intro _
  refine SparesFrom.require ?_
  intro unclaimed
  refine SparesFrom.require ?_
  intro _
  refine SparesFrom.require ?_
  intro _
  refine SparesFrom.quietly ?_
  intro _
  refine SparesFrom.install ?_ _
  rw [recordAt_of there]
  simpa using unclaimed

theorem replacePin_spares (venue : Venue) (table : TableId) (target : Int) (pin : OfdPin)
    (cloexec : Bool) : SparesFrom tables (Core.replacePin venue table target pin cloexec) := by
  unfold Core.replacePin Core.lock
  refine SparesFrom.quietly ?_
  intro _
  refine SparesFrom.lock ?_
  intro t there
  exact replaceExactWith_spares venue there _ _ _

theorem installPair_spares (consistent : AllConsistent tables) (venue : Venue) (table : TableId)
    (min : Int) (firstPin secondPin : OfdPin) (cloexec : Bool) :
    SparesFrom tables (Core.installPair venue table min firstPin secondPin cloexec) := by
  unfold Core.installPair Core.lock Core.allocateFd Core.cover
  refine SparesFrom.lock ?_
  intro t there
  refine SparesFrom.require ?_
  intro _
  refine SparesFrom.quietly ?_
  intro _
  refine SparesFrom.quietly ?_
  intro _
  refine SparesFrom.ofExcept ?_
  intro first foundFirst
  refine SparesFrom.ofExcept ?_
  intro second foundSecond
  refine SparesFrom.require ?_
  intro _
  refine SparesFrom.require ?_
  intro _
  refine SparesFrom.quietly ?_
  intro _
  refine SparesFrom.quietly ?_
  intro kept
  cases kept with
  | error reason =>
    refine SparesFrom.quietly ?_
    intro _
    exact SparesFrom.quiet
  | ok _ =>
    refine (SparesFrom.install (allocate_unclaimed consistent there foundFirst) _).bind ?_
    intro _ after spares
    have still := (spares.reserved table.index second).trans
      (allocate_unclaimed consistent there foundSecond)
    refine (SparesFrom.install still _).bind ?_
    intro _ _ _
    exact SparesFrom.quiet

end Installing

end FdCore
end Carrick
