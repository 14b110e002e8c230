import Carrick.FdCore.Claims

namespace Carrick
namespace FdCore

open Foundation
open Foundation.Command (Keeps Relates)

/-!
# Tables made, grown and torn down, and claims taken and settled

The operations that replace a whole record keep the claims of every other
table.  Growth keeps the claims of its own table too.  A record that is torn
down, or made anew, has none.  A claim is taken at a number that was not
claimed, and settling it gives back that one claim.
-/

/-- No slot of the table is claimed. -/
def Unclaimed (t : TableRecord) : Prop :=
  ∀ fd, t.storage.reserved fd = false

/-- What a call that takes or settles no claim may do to a record: spare its
claims, empty it, or make a newer one of it. -/
inductive TableMove (before after : TableRecord) : Prop
  | spared (same : SameClaims before after)
  | torn (generation : after.generation = before.generation) (free : after.state = .free)
      (unclaimed : Unclaimed after)
  | renewed (free : before.state = .free) (newer : before.generation < after.generation)
      (unclaimed : Unclaimed after)

theorem unclaimed_empty {t : TableRecord} (empty : t.storage = TableStorage.empty) :
    Unclaimed t := by
  intro fd
  rw [empty]
  rfl

/-! ## Growing -/

theorem setLimit_spares (venue : Venue) (table : TableId) (limit : Nat) :
    Sparing (Core.setLimit venue table limit) := by
  intro tables
  unfold Core.setLimit Core.lock
  refine SparesFrom.require ?_
  intro _
  refine SparesFrom.lock ?_
  intro t there core same
  have limited : SameClaims t { t with limit := limit } :=
    ⟨rfl, Iff.rfl, fun _ => SparesSlot.refl _⟩
  rw [<- same] at there ⊢
  exact Spares.set there limited

theorem slotAt_widen (entries : List DescriptorSlot) (levels : List Level) (capacity fd : Nat) :
    (Custody.widen entries capacity).slotAt fd = (TableStorage.mk entries levels).slotAt fd := by
  show (entries ++ List.replicate _ DescriptorSlot.vacant).getD fd _ = entries.getD fd _
  rw [List.getD_eq_getElem?_getD, List.getD_eq_getElem?_getD, List.getElem?_append]
  split_ifs with inside
  · rfl
  · rw [List.getElem?_eq_none (Nat.le_of_not_lt inside), List.getElem?_replicate]
    split_ifs
    · rfl
    · rfl

theorem growTable_spares (custody : Custody) (venue : Venue) (table : TableId) :
    Spares custody.core.tables (Custody.growTable venue table custody).2.core.tables := by
  have grows : Command.Ends (fun _ after => Spares custody.core.tables after.core.tables)
      (Custody.growTable venue table) custody := by
    unfold Custody.growTable Core.lock
    refine reads_onCore (lock_matches custody.core venue table _) (fun _ => Spares.refl _) ?_
    rintro t ⟨there, _⟩
    refine Command.Ends.observe ?_
    refine Command.Ends.require (Spares.refl _) ?_
    intro _
    refine Command.Ends.require (Spares.refl _) ?_
    intro _
    refine Spares.set there ⟨rfl, Iff.rfl, ?_⟩
    intro fd
    show SparesSlot _ ((Custody.widen t.storage.entries _).slotAt fd)
    rw [slotAt_widen t.storage.entries t.storage.levels]
    exact SparesSlot.refl _
  exact grows

/-! ## Tearing down -/

/-- What is left of a table that is torn down: the record is free and claims
nothing, and no other table lost a claim. -/
structure TornDown (before after : List TableRecord) (table : TableId) : Prop where
  current : (recordAt before table.index).generation = table.generation
  generation : (recordAt after table.index).generation = (recordAt before table.index).generation
  free : (recordAt after table.index).state = .free
  unclaimed : Unclaimed (recordAt after table.index)
  others : ∀ index, index ≠ table.index ->
    SameClaims (recordAt before index) (recordAt after index)

theorem recordAt_emptied (tables : List TableRecord) (index other : Nat) :
    recordAt (tables.set index (recordAt tables index).emptied) other =
      if other = index then (recordAt tables index).emptied else recordAt tables other := by
  cases there : tables[index]? with
  | some t => exact recordAt_set there _ other
  | none =>
    have beyond : recordAt tables index = TableRecord.initial := by
      unfold recordAt
      rw [List.getD_eq_getElem?_getD, there, Option.getD_none]
    rw [List.set_eq_of_length_le (List.getElem?_eq_none_iff.mp there)]
    split_ifs with same
    · rw [same, beyond]
      rfl
    · rfl

instance pushTable_tables (index : Nat) : Keeps Core.tables (Core.pushTable index) := by
  refine Keeps.edit (fun core => ?_)
  split_ifs
  · rfl
  · rfl

theorem Spares.tear {before after : List TableRecord} (spares : Spares before after)
    {table : TableId} (current : (recordAt before table.index).generation = table.generation) :
    TornDown before (after.set table.index (recordAt after table.index).emptied) table := by
  have here : recordAt (after.set table.index (recordAt after table.index).emptied) table.index =
      (recordAt after table.index).emptied := by
    rw [recordAt_emptied, if_pos rfl]
  refine ⟨current, ?_, ?_, ?_, ?_⟩
  · rw [here]
    exact (spares table.index).generation
  · rw [here]
    rfl
  · rw [here]
    exact unclaimed_empty rfl
  · intro index different
    rw [recordAt_emptied, if_neg different]
    exact spares index

theorem destroyTableInStates_tears (core : Core) (venue : Venue) (table : TableId)
    (states : List TableState) :
    Command.Ends (fun _ after => Spares core.tables after.tables ∨
      TornDown core.tables after.tables table) (Core.destroyTableInStates venue table states) core := by
  unfold Core.destroyTableInStates
  refine Command.Ends.bind ?_ ?_
  · intro reason middle ran
    have unchanged : middle = core := (lock_matches core venue table states).of_eq ran
    rw [unchanged]
    exact .inl (Spares.refl _)
  intro t middle ran
  rcases (lock_matches core venue table states).of_eq ran with ⟨unchanged, there, _, current, _⟩
  rw [unchanged]
  have swept := closeSelected_spares table.index (fun _ => pure true)
    (List.range t.storage.capacity) core.tables core rfl
  refine Command.Ends.bind ?_ ?_
  · intro reason after ran
    rw [ran] at swept
    exact .inl swept
  intro released after ran
  rw [ran] at swept
  have torn : TornDown core.tables (Core.freeTable table.index after).2.tables table :=
    Spares.tear swept (by rw [recordAt_of there]; exact current)
  have pushed := (pushTable_tables table.index).same (Core.freeTable table.index after).2
  simp only at pushed
  rw [<- pushed] at torn
  exact .inr torn

/-! ## Making a table -/

/-- What the making of a table, or a failed attempt at it, does to the records:
only one of them moves on, and not to a claimed slot. -/
structure RenewsAt (index : Nat) (before after : Custody) : Prop where
  others : ∀ other, other ≠ index ->
    recordAt after.core.tables other = recordAt before.core.tables other
  newer : (recordAt before.core.tables index).generation <=
    (recordAt after.core.tables index).generation
  free : (recordAt after.core.tables index).generation =
      (recordAt before.core.tables index).generation ->
    (recordAt before.core.tables index).state = .free ->
    (recordAt after.core.tables index).state = .free
  unclaimed : Unclaimed (recordAt before.core.tables index) ->
    Unclaimed (recordAt after.core.tables index)

section Renewing

variable {index : Nat} {α β : Type}

theorem RenewsAt.of_tables {before after : Custody} (same : after.core.tables = before.core.tables) :
    RenewsAt index before after := by
  refine ⟨?_, ?_, ?_, ?_⟩
  · intro _ _
    rw [same]
  · rw [same]
  · rw [same]
    exact fun _ free => free
  · rw [same]
    exact fun unclaimed => unclaimed

theorem RenewsAt.trans (first second third : Custody) (earlier : RenewsAt index first second)
    (later : RenewsAt index second third) : RenewsAt index first third := by
  refine ⟨?_, Nat.le_trans earlier.newer later.newer, ?_, ?_⟩
  · intro other different
    rw [later.others other different, earlier.others other different]
  · intro same free
    have newer := earlier.newer
    have newest := later.newer
    exact later.free (by omega) (earlier.free (by omega) free)
  · intro unclaimed
    exact later.unclaimed (earlier.unclaimed unclaimed)

instance : IsPreorder Custody (RenewsAt index) where
  refl := fun _ => RenewsAt.of_tables rfl
  trans := RenewsAt.trans

theorem renews_quiet {command : Custody.Action α}
    [keeps : Keeps (fun custody => custody.core.tables) command] :
    Relates (RenewsAt index) command :=
  fun custody => RenewsAt.of_tables (keeps.same custody)

theorem renews_bind {first : Custody.Action α} {next : α -> Custody.Action β}
    (starts : Relates (RenewsAt index) first)
    (rest : ∀ value, Relates (RenewsAt index) (next value)) :
    Relates (RenewsAt index) (first >>= next) :=
  Relates.bind starts rest

theorem renews_attempt {first : Custody.Action α} {next : Except Error α -> Custody.Action β}
    [keeps : Keeps (fun custody => custody.core.tables) first]
    (rest : ∀ custody, Relates (RenewsAt index) (next (first custody).1)) :
    Relates (RenewsAt index) (Command.attempt first >>= next) := by
  intro custody
  rw [Command.attempt_bind_apply]
  exact RenewsAt.trans _ _ _ (RenewsAt.of_tables (keeps.same custody)) (rest custody _)

instance onCore_tables {action : Core.Action α} [keeps : Keeps Core.tables action] :
    Keeps (fun custody => custody.core.tables) (Custody.onCore action) := by
  refine Keeps.zoom ?_ ?_ keeps
  · intro _ _
    rfl
  · intro _
    rfl

theorem renews_publish (limit : Nat) (extent : Extent) {storage : TableStorage}
    (unclaimed : ∀ fd, storage.reserved fd = false) :
    Relates (RenewsAt index) (Custody.onCore (Core.publish index limit extent storage)) := by
  intro custody
  cases there : custody.core.tables[index]? with
  | none =>
    refine RenewsAt.of_tables ?_
    exact List.set_eq_of_length_le (List.getElem?_eq_none_iff.mp there)
  | some t =>
    have published := publish_eq there limit extent storage
    have after : (Custody.onCore (Core.publish index limit extent storage) custody).2.core.tables =
        custody.core.tables.set index ⟨.live, t.generation + 1, limit, extent, storage⟩ := by
      rw [onCore_eq published]
      rfl
    refine ⟨?_, ?_, ?_, ?_⟩
    · intro other different
      rw [after, recordAt_set there, if_neg different]
    · rw [after, recordAt_set there, if_pos rfl, recordAt_of there]
      exact Nat.le_succ _
    · rw [after, recordAt_set there, if_pos rfl, recordAt_of there]
      intro same
      exact absurd same (Nat.succ_ne_self _)
    · intro _
      rw [after, recordAt_set there, if_pos rfl]
      exact unclaimed

theorem renews_freeTable : Relates (RenewsAt index) (Custody.onCore (Core.freeTable index)) := by
  intro custody
  have after : (Custody.onCore (Core.freeTable index) custody).2.core.tables =
      custody.core.tables.set index (recordAt custody.core.tables index).emptied :=
    rfl
  refine ⟨?_, ?_, ?_, ?_⟩
  · intro other different
    rw [after, recordAt_emptied, if_neg different]
  · rw [after, recordAt_emptied, if_pos rfl]
    exact le_rfl
  · intro _ _
    rw [after, recordAt_emptied, if_pos rfl]
    rfl
  · intro _
    rw [after, recordAt_emptied, if_pos rfl]
    exact unclaimed_empty rfl

theorem reserved_cleared (capacity fd : Nat) : (TableStorage.cleared capacity).reserved fd = false := by
  show ((List.replicate capacity DescriptorSlot.vacant).getD fd DescriptorSlot.vacant).reserved = false
  rw [List.getD_eq_getElem?_getD, List.getElem?_replicate]
  split_ifs
  · rfl
  · rfl

theorem retainSlots_unclaimed : ∀ (slots : List DescriptorSlot) (prior : List Entry)
    (store after : OfdStore) (copied : List DescriptorSlot),
    Custody.retainSlots prior slots store = (.ok copied, after) ->
    ∀ slot ∈ copied, slot.reserved = false := by
  intro slots
  induction slots with
  | nil =>
    intro prior store after copied ran slot listed
    cases ran
    cases listed
  | cons first rest ih =>
    intro prior store after copied ran slot listed
    unfold Custody.retainSlots at ran
    cases named : first.entry with
    | none =>
      rw [named] at ran
      rcases Command.bind_eq_ok ran with ⟨later, middle, ranRest, ends⟩
      cases ends
      rcases List.mem_cons.mp listed with same | older
      · rw [same]
        rfl
      · exact ih _ _ _ _ ranRest slot older
    | some entry =>
      rw [named] at ran
      simp only [Command.attempt_bind_apply] at ran
      cases kept : (OfdStore.retain entry.ofd .ref store).1 with
      | error reason =>
        rw [kept] at ran
        rcases Command.bind_eq_ok ran with ⟨_, _, _, ends⟩
        cases ends
      | ok _ =>
        rw [kept] at ran
        rcases Command.bind_eq_ok ran with ⟨later, middle, ranRest, ends⟩
        cases ends
        rcases List.mem_cons.mp listed with same | older
        · rw [same]
        · exact ih _ _ _ _ ranRest slot older

theorem reserved_widen {slots : List DescriptorSlot}
    (unclaimed : ∀ slot ∈ slots, slot.reserved = false) (capacity fd : Nat) :
    (Custody.widen slots capacity).reserved fd = false := by
  unfold TableStorage.reserved
  rw [slotAt_widen slots []]
  show (slots.getD fd DescriptorSlot.vacant).reserved = false
  rw [List.getD_eq_getElem?_getD]
  cases found : slots[fd]? with
  | none => rfl
  | some slot => exact unclaimed slot (List.mem_of_getElem? found)

/-- What an operation that makes a table leaves: all records as they were, or
one that was free renewed, under the identity it answers with. -/
def Makes (before : Custody) (outcome : Except Error TableId) (after : Custody) : Prop :=
  (after.core.tables = before.core.tables ∧ ∀ id, outcome ≠ .ok id) ∨
    ∃ index, (recordAt before.core.tables index).state = .free ∧
      Unclaimed (recordAt before.core.tables index) ∧ RenewsAt index before after ∧
      ∀ id, outcome = .ok id -> id.index = index ∧
        id.generation = (recordAt before.core.tables index).generation + 1

theorem makes_error {custody : Custody} (reason : Error) : Makes custody (.error reason) custody :=
  .inl ⟨rfl, nofun⟩

variable {who : Nat} {custody : Custody} {pinned : List OfdKey} {ledger : Ledger}

/-- The rule for the part after a record was popped: it renews only that record,
and answers with its next incarnation. -/
theorem makes_popped (sound : Sound who custody.core pinned ledger)
    {next : Nat -> Custody.Action TableId}
    (renews : ∀ index, Relates (RenewsAt index) (next index))
    (answers : ∀ index middle id after, next index middle = (.ok id, after) ->
      id.index = index ∧ id.generation = (recordAt middle.core.tables index).generation + 1) :
    Command.Ends (Makes custody) (Custody.onCore Core.popTable >>= next) custody := by
  unfold Command.Ends
  rcases popTable_cases sound.tables with ⟨index, rest, t, stack, there, isFree, ran⟩ | ran
  · rw [Command.bind_of_ok (onCore_eq ran)]
    have empty := (sound.tables.free_empty index t there isFree).1
    refine .inr ⟨index, ?_, ?_, ?_, ?_⟩
    · rw [recordAt_of there]
      exact isFree
    · rw [recordAt_of there]
      exact unclaimed_empty empty
    · exact RenewsAt.trans _ (custody.withCore (custody.core.withFree rest)) _
        (RenewsAt.of_tables rfl) (renews index _)
    · intro id returned
      exact answers index (custody.withCore (custody.core.withFree rest)) id _
        (Prod.ext returned rfl)
  · rw [Command.bind_of_error (onCore_eq ran)]
    exact makes_error _

theorem createTable_makes (sound : Sound who custody.core pinned ledger) (venue : Venue)
    (limit : Nat) : Command.Ends (Makes custody) (Custody.createTable venue limit) custody := by
  unfold Custody.createTable
  refine reads_onCore (authenticate_reads custody.core) makes_error ?_
  intro _ _
  refine Command.Ends.require (makes_error _) ?_
  intro _
  refine Command.Ends.observe ?_
  refine Command.Ends.require (makes_error _) ?_
  intro _
  refine makes_popped sound ?_ ?_
  · intro index
    split_ifs
    · refine renews_bind (renews_publish _ _ (reserved_cleared _)) (fun _ => ?_)
      exact renews_bind (@renews_quiet _ _ _ (Keeps.edit (fun _ => rfl)))
        (fun _ => renews_quiet)
    · exact renews_bind renews_quiet (fun _ => renews_quiet)
  · intro index middle id after ran
    split_ifs at ran
    · cases ran
      exact ⟨rfl, rfl⟩
    · cases ran

theorem forkPublished_makes (sound : Sound who custody.core pinned ledger) (venue : Venue)
    (parent : TableId) (publisher : TableId -> Except Error Unit) :
    Command.Ends (Makes custody) (Custody.forkPublished venue parent publisher) custody := by
  unfold Custody.forkPublished Core.lock
  refine reads_onCore (lock_matches custody.core venue parent _) makes_error ?_
  rintro p _
  refine Command.Ends.observe ?_
  refine Command.Ends.require (makes_error _) ?_
  intro _
  refine Command.Ends.require (makes_error _) ?_
  intro _
  refine makes_popped sound ?_ ?_
  · intro index
    split_ifs
    · refine renews_attempt ?_
      intro before
      cases kept : (Custody.onCore (Core.onStore
          (Custody.retainSlots [] p.storage.entries)) before).1 with
      | error reason =>
        exact renews_bind renews_quiet (fun _ => renews_quiet)
      | ok slots =>
        have unclaimed := retainSlots_unclaimed _ _ before.core.store _ slots (Prod.ext kept rfl)
        refine renews_bind (renews_publish _ _ (reserved_widen unclaimed _)) (fun id => ?_)
        refine renews_bind (@renews_quiet _ _ _ (Keeps.edit (fun _ => rfl))) (fun _ => ?_)
        cases publisher id with
        | ok _ => exact renews_quiet
        | error reason =>
          refine renews_bind renews_quiet (fun _ => ?_)
          refine renews_bind (@renews_quiet _ _ _ (Keeps.edit (fun _ => rfl))) (fun _ => ?_)
          refine renews_bind renews_freeTable (fun _ => ?_)
          exact renews_bind renews_quiet (fun _ => renews_quiet)
    · exact renews_bind renews_quiet (fun _ => renews_quiet)
  intro index middle id after ran
  split_ifs at ran
  · rw [Command.attempt_bind_apply] at ran
    cases kept : (Custody.onCore (Core.onStore
        (Custody.retainSlots [] p.storage.entries)) middle).1 with
    | error reason =>
      rw [kept] at ran
      rcases Command.bind_eq_ok ran with ⟨_, _, _, ends⟩
      cases ends
    | ok slots =>
      rw [kept] at ran
      rcases Command.bind_eq_ok ran with ⟨child, published, made, rest⟩
      have answered : child.index = index ∧
          child.generation = (recordAt middle.core.tables index).generation + 1 := by
        cases made
        exact ⟨rfl, rfl⟩
      rcases Command.bind_eq_ok rest with ⟨_, emptied, _, ends⟩
      cases said : publisher child with
      | ok _ =>
        rw [said] at ends
        cases ends
        exact answered
      | error reason =>
        rw [said] at ends
        rcases Command.bind_eq_ok ends with ⟨_, _, _, ends⟩
        rcases Command.bind_eq_ok ends with ⟨_, _, _, ends⟩
        rcases Command.bind_eq_ok ends with ⟨_, _, _, ends⟩
        rcases Command.bind_eq_ok ends with ⟨_, _, _, ends⟩
        cases ends
  · cases ran

end Renewing

/-! ## Taking and settling a claim -/

/-- One slot of one table in use is written, and nothing else of the tables. -/
structure Rewrites (before after : List TableRecord) (reservation : Core.SlotReservation)
    (slot : DescriptorSlot) : Prop where
  live : (recordAt before reservation.table.index).state = .live
  current : (recordAt before reservation.table.index).generation = reservation.table.generation
  state : (recordAt after reservation.table.index).state = .live
  generation : (recordAt after reservation.table.index).generation = reservation.table.generation
  slots : ∀ fd, (recordAt after reservation.table.index).storage.slotAt fd =
    if fd = reservation.fd then slot
    else (recordAt before reservation.table.index).storage.slotAt fd
  others : ∀ index, index ≠ reservation.table.index ->
    recordAt after index = recordAt before index

/-- The claim was not there, and is; the entry is as it was. -/
def Takes (before after : List TableRecord) (reservation : Core.SlotReservation) : Prop :=
  (recordAt before reservation.table.index).storage.reserved reservation.fd = false ∧
    Rewrites before after reservation
      ⟨(recordAt before reservation.table.index).storage.get reservation.fd, true⟩

/-- The claim was there, and is not; the slot names this entry. -/
def GivesBack (before after : List TableRecord) (reservation : Core.SlotReservation)
    (entry : Option Entry) : Prop :=
  (recordAt before reservation.table.index).storage.reserved reservation.fd = true ∧
    Rewrites before after reservation ⟨entry, false⟩

section Settling

variable {core : Core} {reservation : Core.SlotReservation} {t : TableRecord}

theorem rewrites_set (there : core.tables[reservation.table.index]? = some t)
    (live : t.state ∈ [TableState.live]) (current : t.generation = reservation.table.generation)
    {storage : TableStorage} {slot : DescriptorSlot}
    (slots : ∀ fd, storage.slotAt fd =
      if fd = reservation.fd then slot else t.storage.slotAt fd) :
    Rewrites core.tables
      (core.tables.set reservation.table.index (t.withStorage storage)) reservation slot := by
  have live : t.state = .live := by simpa using live
  have here : recordAt (core.tables.set reservation.table.index (t.withStorage storage))
      reservation.table.index = t.withStorage storage := by
    rw [recordAt_set there, if_pos rfl]
  have before := recordAt_of there
  refine ⟨?_, ?_, ?_, ?_, ?_, ?_⟩
  · rw [before]
    exact live
  · rw [before]
    exact current
  · rw [here]
    exact live
  · rw [here]
    exact current
  · intro fd
    rw [here, before]
    exact slots fd
  · intro index different
    rw [recordAt_set there, if_neg different]

theorem writeSlot_tables {index fd : Nat} (there : core.tables[index]? = some t)
    (slot : DescriptorSlot) :
    (core.writeSlot index fd slot).tables =
      core.tables.set index (t.withStorage (t.storage.write fd slot)) := by
  rw [<- tableAt_eq there]
  rfl

theorem reserveSlot_takes (reservation : Core.SlotReservation)
    (there : core.tables[reservation.table.index]? = some t)
    (live : t.state ∈ [TableState.live]) (current : t.generation = reservation.table.generation)
    (inside : reservation.fd < t.storage.capacity)
    (unclaimed : t.storage.reserved reservation.fd = false) :
    Takes core.tables (Core.reserveSlot reservation.table.index reservation.fd core).2.tables
      reservation := by
  have written : (Core.reserveSlot reservation.table.index reservation.fd core).2.tables =
      core.tables.set reservation.table.index (t.withStorage
        (t.storage.write reservation.fd ⟨t.storage.get reservation.fd, true⟩)) := by
    rw [<- tableAt_eq there]
    rfl
  refine ⟨?_, ?_⟩
  · rw [recordAt_of there]
    exact unclaimed
  · rw [written, recordAt_of there]
    exact rewrites_set there live current (TableStorage.slotAt_write inside _)

/-- The receipt names the table and the slot that was marked. -/
def Grants (core : Core) (table : TableId) (answer : Core.SlotReservation) (after : Core) : Prop :=
  answer.table = table ∧ after = (Core.reserveSlot answer.table.index answer.fd core).2 ∧
    Takes core.tables after.tables answer

theorem isFree_unclaimed {slot : DescriptorSlot} (free : slot.isFree = true) :
    slot.reserved = false := by
  unfold DescriptorSlot.isFree at free
  rw [Bool.and_eq_true, Bool.not_eq_true'] at free
  exact free.2

theorem settles_lock_matching {β : Type} {good : β -> Core -> Prop} (venue : Venue) (id : TableId)
    (states : List TableState) {next : TableRecord -> Core.Action β}
    (rest : ∀ t, core.tables[id.index]? = some t -> t.state ∈ states ->
      t.generation = id.generation -> Command.Ends (Settles core good) (next t) core) :
    Command.Ends (Settles core good) (Core.lockInStates venue id states >>= next) core := by
  refine Settles.reading _ (lock_matches core venue id states) ?_
  rintro t ⟨there, state, current, _⟩
  exact rest t there state current

theorem reserveMin_grants (consistent : AllConsistent core.tables) (venue : Venue) (table : TableId)
    (min : Int) :
    Command.Ends (Settles core (Grants core table)) (Core.reserveMin venue table min) core := by
  unfold Core.reserveMin Core.lock Core.allocateFd
  refine Settles.require ?_
  intro _
  refine settles_lock_matching venue table _ ?_
  intro t there live current
  refine Settles.ofExcept ?_
  intro fd found
  rcases allocate_ok (consistent _ t there) found with ⟨_, _, inside, free⟩
  exact ⟨rfl, rfl, reserveSlot_takes ⟨table, fd⟩ there live current inside
    (isFree_unclaimed free)⟩

theorem reserveDupMin_grants (consistent : AllConsistent core.tables) (venue : Venue)
    (table : TableId) (min : Int) :
    Command.Ends (Settles core (Grants core table)) (Core.reserveDupMin venue table min) core := by
  unfold Core.reserveDupMin Core.lock Core.allocateFd
  refine settles_lock_matching venue table _ ?_
  intro t there live current
  refine Settles.require ?_
  intro _
  refine Settles.ofExcept ?_
  intro fd found
  rcases allocate_ok (consistent _ t there) found with ⟨_, _, inside, free⟩
  exact ⟨rfl, rfl, reserveSlot_takes ⟨table, fd⟩ there live current inside
    (isFree_unclaimed free)⟩

theorem reserveExact_grants (venue : Venue) (table : TableId) (fd : Int) :
    Command.Ends (Settles core (Grants core table)) (Core.reserveExact venue table fd) core := by
  unfold Core.reserveExact Core.lock
  refine settles_lock_matching venue table _ ?_
  intro t there live current
  refine Settles.require ?_
  intro _
  refine Settles.require ?_
  intro inside
  refine Settles.require ?_
  intro unclaimed
  exact ⟨rfl, rfl, reserveSlot_takes ⟨table, fd.toNat⟩ there live current
    (of_decide_eq_true inside) (by simpa using unclaimed)⟩

theorem cancelReservation_gives (core : Core) (venue : Venue) (reservation : Core.SlotReservation) :
    Command.Ends (Settles core (fun _ after => GivesBack core.tables after.tables reservation
      ((recordAt core.tables reservation.table.index).storage.get reservation.fd)))
      (Core.cancelReservation venue reservation) core := by
  unfold Core.cancelReservation Core.lock
  refine settles_lock_matching venue reservation.table _ ?_
  intro t there live current
  refine Settles.require ?_
  intro claimed
  refine Settles.returned (unreserve_eq there) ?_
  refine ⟨?_, ?_⟩
  · rw [recordAt_of there]
    exact claimed
  · rw [recordAt_of there, writeSlot_tables there]
    exact rewrites_set there live current
      (TableStorage.slotAt_write (inside_of_reserved claimed) _)

theorem dropDisplaced_tables {ρ : Type} (drop : Nat -> OfdStore.Action ρ) (nothing : ρ)
    (displaced : Option Entry) :
    Keeps Core.tables (match displaced with
      | some old => Core.onStore (drop old.ofd)
      | none => pure nothing) := by
  cases displaced with
  | none => exact Keeps.pure nothing
  | some old => exact onStore_tables _

/-- Committing puts the entry of the pin in place of the claim and of the entry
that was there. -/
theorem commitReservationWith_gives {ρ : Type} {drop : Nat -> OfdStore.Action ρ}
    {nothing : ρ} (venue : Venue) (reservation : Core.SlotReservation) (pin : OfdPin)
    (cloexec : Bool) {answer : ρ} {after : Core}
    (returned : Core.commitReservationWith drop nothing venue reservation pin cloexec core =
      (.ok answer, after)) :
    GivesBack core.tables after.tables reservation (some ⟨pin.key.index, cloexec⟩) := by
  unfold Core.commitReservationWith Core.lock Core.cover at returned
  rcases Command.bind_eq_ok returned with ⟨t, locked, ran, returned⟩
  rcases (lock_matches core venue reservation.table _).of_eq ran with
    ⟨same, there, live, current, _⟩
  rcases Command.bind_eq_ok returned with ⟨_, checked, ran, returned⟩
  have checkedTables : checked.tables = core.tables := by
    rw [(checkPin_tables pin).of_eq ran, same]
  rcases Command.bind_eq_ok returned with ⟨_, claiming, ran, returned⟩
  rcases Command.require_eq_ok ran with ⟨claimed, sameClaiming⟩
  rcases Command.bind_eq_ok returned with ⟨_, covered, ran, returned⟩
  rcases Command.require_eq_ok ran with ⟨_, sameCovered⟩
  rcases Command.bind_eq_ok returned with ⟨_, retained, ran, returned⟩
  have retainedTables : retained.tables = core.tables := by
    rw [(onStore_tables _).of_eq ran, sameCovered, sameClaiming, checkedTables]
  have thereNow : retained.tables[reservation.table.index]? = some t := by
    rw [retainedTables]
    exact there
  have inside := inside_of_reserved claimed
  have written : (retained.writeSlot reservation.table.index reservation.fd
      ⟨some ⟨pin.key.index, cloexec⟩, t.storage.reserved reservation.fd⟩).tables[
        reservation.table.index]? = _ := writeSlot_table thereNow _
  rw [Command.bind_of_ok (install_eq thereNow _ _), Command.bind_of_ok (unreserve_eq written)]
    at returned
  have last : after.tables = core.tables.set reservation.table.index (t.withStorage
      ((t.storage.write reservation.fd
        ⟨some ⟨pin.key.index, cloexec⟩, t.storage.reserved reservation.fd⟩).write reservation.fd
          ⟨some ⟨pin.key.index, cloexec⟩, false⟩)) := by
    have dropped := (dropDisplaced_tables drop nothing (t.storage.get reservation.fd)).of_eq returned
    have entry : TableStorage.get (t.withStorage (t.storage.write reservation.fd
        ⟨some ⟨pin.key.index, cloexec⟩, t.storage.reserved reservation.fd⟩)).storage
          reservation.fd = some ⟨pin.key.index, cloexec⟩ := by
      show (TableStorage.slotAt (t.storage.write _ _) reservation.fd).entry = _
      rw [TableStorage.slotAt_write inside, if_pos rfl]
    rw [dropped, entry, writeSlot_tables written, writeSlot_tables thereNow, List.set_set,
      retainedTables]
    rfl
  refine ⟨?_, ?_⟩
  · rw [recordAt_of there]
    exact claimed
  rw [last]
  refine rewrites_set there live current ?_
  intro fd
  rw [TableStorage.slotAt_write (by rw [TableStorage.capacity_write]; exact inside),
    TableStorage.slotAt_write inside]
  split_ifs
  · rfl
  · rfl

end Settling

/-! ## Calls that leave the tables alone -/

instance takeRetiredTable_tables : Keeps Core.tables Core.takeRetiredTable := by
  unfold Core.takeRetiredTable
  refine Keeps.past (fun top => ?_)
  cases top with
  | none => exact Keeps.pure _
  | some index =>
    refine Keeps.past (fun found => ?_)
    cases found with
    | none => exact Keeps.pure _
    | some record => exact Keeps.bind (Keeps.edit (fun _ => rfl)) inferInstance

instance returnRetired_tables (receipt : TableId) :
    Keeps Core.tables (Core.returnRetired receipt) :=
  Keeps.edit (fun _ => rfl)

instance pin_tables (venue : Venue) (table : TableId) (fd : Int) :
    Keeps Core.tables (Core.pin venue table fd) := by
  unfold Core.pin
  refine Keeps.past (fun _ => Keeps.past (fun _ => Keeps.past (fun _ => ?_)))
  infer_instance

instance createPinned_tables (description : Description) :
    Keeps Core.tables (Core.createPinned description) := by
  unfold Core.createPinned
  infer_instance

instance unpin_tables (pin : OfdPin) : Keeps Core.tables (Core.unpin pin) := by
  unfold Core.unpin
  infer_instance

instance unpinFiltered_tables (pin : OfdPin) (releaseHere : Description -> Bool) :
    Keeps Core.tables (Core.unpinFiltered pin releaseHere) := by
  unfold Core.unpinFiltered
  infer_instance

/-! ## What a lookup sees -/

section Lookups

variable {core twin : Core} {α β : Type}

theorem onStore_answer {action : OfdStore.Action α} {next twinNext : α -> Core.Action β}
    (store : twin.store = core.store)
    (rest : ∀ value store,
      (twinNext value (twin.withStore store)).1 = (next value (core.withStore store)).1) :
    ((Core.onStore action >>= twinNext) twin).1 = ((Core.onStore action >>= next) core).1 := by
  rw [Command.bind_apply, Command.bind_apply]
  unfold Core.onStore
  rw [Command.zoom_apply, Command.zoom_apply, store]
  cases action core.store with
  | mk outcome after =>
    cases outcome with
    | error reason => rfl
    | ok value => exact rest value after

theorem require_answer {condition : Bool} {reason : Error} {next twinNext : Unit -> Core.Action β}
    (rest : (twinNext () twin).1 = (next () core).1) :
    ((Command.require condition reason >>= twinNext) twin).1 =
      ((Command.require condition reason >>= next) core).1 := by
  cases condition with
  | false => rfl
  | true => exact rest

theorem authenticate_answer {next twinNext : Nat -> Core.Action β}
    (identity : twin.identity = core.identity)
    (rest : (twinNext core.identity twin).1 = (next core.identity core).1) :
    ((Core.authenticate >>= twinNext) twin).1 = ((Core.authenticate >>= next) core).1 := by
  by_cases named : core.identity = 0
  · have refused : ∀ core : Core, core.identity = 0 ->
        Core.authenticate core = (.error .staleTable, core) := by
      intro core unnamed
      unfold Core.authenticate
      rw [Command.observe_bind_apply, unnamed]
      rfl
    rw [Command.bind_of_error (refused core named),
      Command.bind_of_error (refused twin (identity.trans named))]
  have passed : ∀ core : Core, core.identity ≠ 0 ->
      Core.authenticate core = (.ok core.identity, core) := by
    intro core named
    unfold Core.authenticate
    rw [Command.observe_bind_apply, Command.require_bind_true (decide_eq_true named)]
    rfl
  rw [Command.bind_of_ok (passed core named),
    Command.bind_of_ok (passed twin (by rw [identity]; exact named)), identity]
  exact rest

/-- A lookup reads the state and the incarnation of its table and the entry of
its slot, never the claim. -/
theorem pin_answer (venue : Venue) (table : TableId) (fd : Int)
    (identity : twin.identity = core.identity) (store : twin.store = core.store)
    (lookups : twin.tables[table.index]?.map
        (fun t => (t.state, t.generation, t.extent, t.storage.get fd.toNat)) =
      core.tables[table.index]?.map
        (fun t => (t.state, t.generation, t.extent, t.storage.get fd.toNat))) :
    (Core.pin venue table fd twin).1 = (Core.pin venue table fd core).1 := by
  unfold Core.pin
  refine authenticate_answer identity ?_
  refine require_answer ?_
  rw [Command.observe_bind_apply, Command.observe_bind_apply]
  cases there : core.tables[table.index]? with
  | none =>
    rw [there] at lookups
    rw [Option.map_eq_none_iff.mp lookups]
    rfl
  | some t =>
    rw [there] at lookups
    rcases Option.map_eq_some_iff.mp lookups with ⟨now, thereNow, same⟩
    rw [Prod.mk.injEq, Prod.mk.injEq, Prod.mk.injEq] at same
    have entry : Core.entryAt now.storage fd = Core.entryAt t.storage fd := by
      unfold Core.entryAt
      rw [same.2.2.2]
    rw [thereNow, Command.demand_bind_some rfl, Command.demand_bind_some rfl, same.1, same.2.1,
      same.2.2.1, entry]
    refine require_answer ?_
    refine require_answer ?_
    cases Core.entryAt t.storage fd with
    | none => rfl
    | some entry =>
      refine onStore_answer store ?_
      intro record read
      refine onStore_answer rfl ?_
      intro retained _
      exact require_answer rfl
theorem reserve_get (storage : TableStorage) (slot fd : Nat) :
    (storage.reserve slot).get fd = storage.get fd := by
  unfold TableStorage.get TableStorage.reserve
  by_cases inside : slot < storage.capacity
  · rw [TableStorage.slotAt_write inside]
    split_ifs with same
    · rw [same]
      rfl
    · rfl
  · rw [slotAt_write_beyond (Nat.le_of_not_lt inside)]

theorem reserveSlot_lookup (index slot : Nat) (venue : Venue) (table : TableId) (fd : Int) :
    (Core.pin venue table fd (Core.reserveSlot index slot core).2).1 =
      (Core.pin venue table fd core).1 := by
  refine pin_answer venue table fd rfl rfl ?_
  cases there : core.tables[index]? with
  | none =>
    have same : (Core.reserveSlot index slot core).2.tables = core.tables :=
      List.set_eq_of_length_le (List.getElem?_eq_none_iff.mp there)
    rw [same]
  | some t =>
    have written : (Core.reserveSlot index slot core).2.tables =
        core.tables.set index (t.withStorage (t.storage.reserve slot)) := by
      rw [<- tableAt_eq there]
      rfl
    rw [written]
    by_cases here : table.index = index
    · have now : (core.tables.set index (t.withStorage (t.storage.reserve slot)))[index]? =
          some (t.withStorage (t.storage.reserve slot)) :=
        setTable_self there _
      have entry : (t.withStorage (t.storage.reserve slot)).storage.get fd.toNat =
        t.storage.get fd.toNat := reserve_get t.storage slot fd.toNat
      rw [here, there, now, Option.map_some, Option.map_some, entry]
      rfl
    · rw [List.getElem?_set_ne (Ne.symm here)]

end Lookups

end FdCore
end Carrick
