import Carrick.FdCore.Tables

namespace Carrick
namespace FdCore

open Foundation

/-!
# Tables and extents

The operations that take an extent from the caller.  When one of them refuses,
the caller has its extent back, the store is as it was, and so is every table
in use; a record that was free is free again, perhaps of another generation.
-/

/-- What a refusal leaves of the core and of the caller's extent: the extent,
the store and every table in use as they were, and free tables free. -/
structure Refused (before after : Custody) : Prop where
  extent : after.extent = before.extent
  store : after.core.store = before.core.store
  identity : after.core.identity = before.core.identity
  used : ∀ (index : Nat) (t : TableRecord), before.core.tables[index]? = some t -> t.state ≠ .free ->
    after.core.tables[index]? = some t
  free : ∀ (index : Nat) (t : TableRecord), before.core.tables[index]? = some t -> t.state = .free ->
    ∃ now : TableRecord, after.core.tables[index]? = some now ∧ now.state = .free ∧ now.storage = t.storage ∧
      now.extent = t.extent
  count : after.core.tables.length = before.core.tables.length

theorem Refused.refl (custody : Custody) : Refused custody custody :=
  ⟨rfl, rfl, rfl, fun _ _ there _ => there, fun _ t there free => ⟨t, there, free, rfl, rfl⟩, rfl⟩

/-- The operation returned with what is asked, or refused and left what it may. -/
def Concludes {σ α : Type} (lost : σ -> Prop) (good : α -> σ -> Prop) : Except Error α -> σ -> Prop
  | .ok answer, after => good answer after
  | .error _, after => lost after

section Extents

variable {who : Nat} {custody : Custody} {pinned : List OfdKey} {ledger : Ledger} {α β : Type}

/-- The accounts after a refusal. -/
def RefusedSound (who : Nat) (pinned : List OfdKey) (ledger : Ledger) (before after : Custody) :
    Prop :=
  Refused before after ∧ Sound who after.core pinned ledger

/-- The core of the caller with the extent it holds. -/
def Custody.withCore (custody : Custody) (core : Core) : Custody :=
  { custody with core := core }

variable {core : Core}

theorem onCore_eq {action : Core.Action α} {answer : Except Error α}
    (ran : action custody.core = (answer, core)) :
    Custody.onCore action custody = (answer, custody.withCore core) := by
  unfold Custody.onCore
  rw [Command.zoom_apply, ran]
  rfl

theorem reads_onCore {post : Except Error β -> Custody -> Prop} {action : Core.Action α}
    {known : α -> Prop} {next : α -> Custody.Action β}
    (settles : Command.Ends (Settles custody.core
      (fun value after => after = custody.core ∧ known value)) action custody.core)
    (refused : ∀ reason, post (.error reason) custody)
    (rest : ∀ value, known value -> Command.Ends post (next value) custody) :
    Command.Ends post (Custody.onCore action >>= next) custody := by
  refine Command.Ends.bind ?_ ?_
  · intro reason middle ran
    cases answered : action custody.core with
    | mk answer core =>
      rw [onCore_eq answered, Prod.mk.injEq] at ran
      rw [ran.1] at answered
      have same : core = custody.core := settles.of_eq answered
      rw [<- ran.2, same]
      exact refused reason
  intro value middle ran
  cases answered : action custody.core with
  | mk answer core =>
    rw [onCore_eq answered, Prod.mk.injEq] at ran
    rw [ran.1] at answered
    have known := settles.of_eq answered
    rw [<- ran.2, known.1]
    exact rest value known.2

/-- The core with another free list. -/
def Core.withFree (core : Core) (free : List Nat) : Core :=
  { core with freeTables := free }

theorem popTable_cases (tables : TablesSound who core) :
    (∃ (index : Nat) (rest : List Nat) (t : TableRecord), core.freeTables = index :: rest ∧ core.tables[index]? = some t ∧
      t.state = .free ∧
      Core.popTable core = (.ok index, core.withFree rest)) ∨
      Core.popTable core = (.error .noMemory, core) := by
  unfold Core.popTable
  rw [Command.observe_bind_apply]
  cases stack : core.freeTables with
  | nil => exact .inr rfl
  | cons index rest =>
    rcases tables.free_listed index (by rw [stack]; simp) with ⟨t, there, free⟩
    refine .inl ⟨index, rest, t, rfl, there, free, ?_⟩
    rw [Command.demand_bind_some List.head?_cons, Command.observe_bind_apply,
      Command.require_bind_true (decide_eq_true (List.getElem?_eq_some_iff.mp there).1),
      Command.edit_bind_apply, stack]
    rfl

variable {index : Nat} {t : TableRecord}

theorem withTable_self (there : core.tables[index]? = some t) (free : List Nat) :
    core.withTable index t free = core.withFree free := by
  rcases List.getElem?_eq_some_iff.mp there with ⟨inside, same⟩
  unfold Core.withTable Core.withFree
  rw [<- same, List.set_getElem_self]

variable {new : TableRecord}

/-- The record of a table that was free is replaced and the rest of the list
kept. -/
theorem refused_withTable {free : List Nat} {extent : Extent} (tables : TablesSound who core)
    (there : core.tables[index]? = some t) (isFree : t.state = .free) (again : new.state = .free)
    (storage : new.storage = TableStorage.empty) (given : new.extent = Extent.empty) :
    Refused ⟨core, extent⟩ ⟨core.withTable index new free, extent⟩ := by
  have before := tables.free_empty index t there isFree
  refine ⟨rfl, rfl, rfl, ?_, ?_, List.length_set⟩
  · intro other found present used
    have different : other ≠ index := by
      rintro rfl
      rw [there, Option.some.injEq] at present
      rw [<- present] at used
      exact used isFree
    exact (setTable_other different new).trans present
  intro other found present free
  by_cases same : other = index
  · subst same
    rw [there, Option.some.injEq] at present
    refine ⟨new, setTable_self there new, again, ?_, ?_⟩
    · rw [storage, <- present, before.1]
    · rw [given, <- present, before.2]
  · exact ⟨found, (setTable_other same new).trans present, free, rfl, rfl⟩

variable {rest : List Nat}

theorem returned_sound {free : List Nat} (sound : Sound who core pinned ledger)
    (stack : core.freeTables = index :: rest) (there : core.tables[index]? = some t)
    (isFree : t.state = .free) (again : new.state = .free)
    (storage : new.storage = TableStorage.empty) (given : new.extent = Extent.empty)
    (pushed : free = index :: rest ∨ free = rest) :
    Sound who (core.withTable index new free) pinned ledger := by
  have nodup := sound.tables.free_nodup
  rw [stack, List.nodup_cons] at nodup
  refine sound_withTable sound there ?_ ?_
  · refine sound.tables.withTable there (by rw [storage]; exact empty_consistent)
      (fun _ => ⟨storage, given⟩) ?_ (fun _ => again) ?_
    · intro other listed _
      rw [stack]
      rcases pushed with back | gone
      · rw [back] at listed
        exact listed
      · rw [gone] at listed
        exact List.mem_cons_of_mem _ listed
    · rcases pushed with back | gone
      · rw [back]
        exact List.nodup_cons.mpr nodup
      · rw [gone]
        exact nodup.2
  · intro ofd
    rw [storage, (sound.tables.free_empty index t there isFree).1]

theorem pushTable_returned (new : TableRecord) (sound : Sound who core pinned ledger)
    (stack : core.freeTables = index :: rest) (there : core.tables[index]? = some t)
    (isFree : t.state = .free) (again : new.state = .free)
    (storage : new.storage = TableStorage.empty) (given : new.extent = Extent.empty)
    (extent : Extent) :
    ∃ after, Core.pushTable index (core.withTable index new rest) = (.ok (), after) ∧
      RefusedSound who pinned ledger ⟨core, extent⟩ ⟨after, extent⟩ := by
  have self : (core.withTable index new rest).tableAt index = new :=
    tableAt_eq (setTable_self there new)
  refine ⟨core.withTable index new
    (if new.generation < wordLimit - 1 then index :: rest else rest), ?_, ?_, ?_⟩
  · unfold Core.pushTable
    rw [Command.edit_apply, self]
    split_ifs
    · rfl
    · rfl
  · exact refused_withTable sound.tables there isFree again storage given
  · refine returned_sound sound stack there isFree again storage given ?_
    split_ifs
    · exact .inl rfl
    · exact .inr rfl

/-- A record that was popped is published with slots that name `taken`, for
which the references are lent. -/
theorem published_sound {taken : List Nat} {store : OfdStore}
    (sound : Sound who core pinned ledger) (stack : core.freeTables = index :: rest)
    (there : core.tables[index]? = some t) (isFree : t.state = .free) (live : new.state ≠ .free)
    (consistent : Consistent new.storage)
    (books : Books store ((⟨core.naming, pinned⟩ : Counts).addRefs taken) ledger)
    (named : ∀ ofd, new.storage.naming ofd = taken.count ofd) :
    Sound who ((core.withStore store).withTable index new rest) pinned ledger := by
  have nodup := sound.tables.free_nodup
  rw [stack, List.nodup_cons] at nodup
  refine ⟨?_, ?_⟩
  · refine (sound.tables.withStore store).withTable there consistent (fun free => absurd free live)
      ?_ (fun listed => absurd listed nodup.1) nodup.2
    intro other listed _
    show other ∈ core.freeTables
    rw [stack]
    exact List.mem_cons_of_mem _ listed
  have counts : (⟨((core.withStore store).withTable index new rest).naming, pinned⟩ : Counts) =
      (⟨core.naming, pinned⟩ : Counts).addRefs taken := by
    refine Counts.ext ?_ rfl
    intro ofd
    have moved : ((core.withStore store).withTable index new rest).naming ofd +
        t.storage.naming ofd = core.naming ofd + new.storage.naming ofd :=
      naming_setTable there new ofd
    rw [(sound.tables.free_empty index t there isFree).1, naming_empty, named] at moved
    exact moved
  rw [counts]
  exact books

theorem tally_vacant (ofd count : Nat) :
    tally (DescriptorSlot.naming ofd) (List.replicate count DescriptorSlot.vacant) = 0 := by
  refine tally_eq_zero ?_
  intro slot listed
  rw [(List.mem_replicate.mp listed).2]
  rfl

theorem naming_widen (entries : List DescriptorSlot) (capacity ofd : Nat) :
    (Custody.widen entries capacity).naming ofd = tally (DescriptorSlot.naming ofd) entries := by
  show tally (DescriptorSlot.naming ofd) (entries ++ _) = _
  rw [tally_append, tally_vacant, Nat.add_zero]

theorem naming_copies (slots : List DescriptorSlot) (ofd : Nat) :
    tally (DescriptorSlot.naming ofd) (copies slots) = (namedIn slots).count ofd := by
  induction slots with
  | nil => rfl
  | cons slot rest ih =>
    have split : copies (slot :: rest) = ⟨slot.entry, false⟩ :: copies rest := rfl
    rw [split, tally_cons, ih]
    cases named : slot.entry with
    | none =>
      rw [namedIn_vacant named, naming_none, Nat.zero_add]
    | some entry =>
      rw [namedIn_open named, List.count_cons]
      have weight : DescriptorSlot.naming ofd ⟨some entry, false⟩ =
          if ofd = entry.ofd then 1 else 0 := naming_some entry.ofd ofd entry.cloexec false
      rw [weight, Nat.add_comm]
      by_cases same : ofd = entry.ofd
      · simp [same]
      · simp [same, Ne.symm same]

theorem createTable_concludes (sound : Sound who custody.core pinned ledger) (venue : Venue)
    (limit : Nat) :
    Command.Ends (Concludes (RefusedSound who pinned ledger custody)
      (fun _ after => Sound who after.core pinned ledger))
      (Custody.createTable venue limit) custody := by
  have nothing : RefusedSound who pinned ledger custody custody := ⟨Refused.refl custody, sound⟩
  unfold Custody.createTable
  refine reads_onCore (authenticate_reads custody.core) (fun _ => nothing) ?_
  intro _ _
  refine Command.Ends.require nothing ?_
  intro _
  refine Command.Ends.observe ?_
  refine Command.Ends.require nothing ?_
  intro _
  rcases popTable_cases sound.tables with ⟨index, rest, t, stack, there, isFree, ran⟩ | ran
  · have before := sound.tables.free_empty index t there isFree
    have nodup := sound.tables.free_nodup
    rw [stack, List.nodup_cons] at nodup
    unfold Command.Ends
    rw [Command.bind_of_ok (onCore_eq ran)]
    split_ifs
    · have books : Books custody.core.store
          ((⟨custody.core.naming, pinned⟩ : Counts).addRefs []) ledger := by
        have none : (⟨custody.core.naming, pinned⟩ : Counts).addRefs [] =
            ⟨custody.core.naming, pinned⟩ := Counts.ext (fun _ => rfl) rfl
        rw [none]
        exact sound.books
      exact published_sound sound stack there isFree nofun
        (rebuild_consistent _) books (fun ofd => tally_vacant ofd _)
    · rcases pushTable_returned t sound stack there isFree isFree before.1 before.2 custody.extent with
        ⟨after, pushed, refused⟩
      rw [withTable_self there] at pushed
      rw [Command.bind_of_ok (onCore_eq pushed)]
      exact refused
  · unfold Command.Ends
    rw [Command.bind_of_error (onCore_eq ran)]
    exact nothing

theorem growTable_concludes (sound : Sound who custody.core pinned ledger) (venue : Venue)
    (table : TableId) :
    Command.Ends (Concludes (RefusedSound who pinned ledger custody)
      (fun _ after => Sound who after.core pinned ledger))
      (Custody.growTable venue table) custody := by
  have nothing : RefusedSound who pinned ledger custody custody := ⟨Refused.refl custody, sound⟩
  unfold Custody.growTable Core.lock
  refine reads_onCore (lock_reads custody.core venue table _) (fun _ => nothing) ?_
  rintro t ⟨there, state⟩
  have live : t.state = .live := by simpa using state
  have busy : t.state ≠ .free := by
    rw [live]
    exact nofun
  refine Command.Ends.observe ?_
  refine Command.Ends.require nothing ?_
  intro _
  refine Command.Ends.require nothing ?_
  intro _
  exact sound_setTable sound there busy _ busy (rebuild_consistent _)
    (fun ofd => naming_widen t.storage.entries _ ofd)

theorem Sound.held_slots (sound : Sound who core pinned ledger)
    (there : core.tables[index]? = some t) :
    Held core.store (namedIn t.storage.entries) := by
  intro ofd listed
  unfold namedIn at listed
  rcases List.mem_filterMap.mp listed with ⟨slot, member, named⟩
  rcases List.getElem?_of_mem member with ⟨fd, present⟩
  cases found : slot.entry with
  | none =>
    rw [found] at named
    cases named
  | some entry =>
    rw [found, Option.map_some, Option.some.injEq] at named
    subst named
    have atFd : t.storage.get fd = some entry := by
      unfold TableStorage.get TableStorage.slotAt
      rw [List.getD_eq_getElem?_getD, present, Option.getD_some]
      exact found
    rcases sound.books.record_of_count .ref (naming_pos there atFd) with ⟨record, recorded⟩
    exact ⟨record, recorded, sound.held_of_entry there atFd recorded⟩

theorem namedIn_widen (entries : List DescriptorSlot) (capacity : Nat) :
    namedIn (Custody.widen entries capacity).entries = namedIn entries := by
  show namedIn (entries ++ _) = _
  unfold namedIn
  rw [List.filterMap_append]
  have none : (List.replicate (capacity - entries.length) DescriptorSlot.vacant).filterMap
      (fun slot => slot.entry.map Entry.ofd) = [] := by
    refine List.filterMap_eq_nil_iff.mpr ?_
    intro slot listed
    rw [(List.mem_replicate.mp listed).2]
    rfl
  rw [none, List.append_nil]

theorem namedIn_copies (slots : List DescriptorSlot) : namedIn (copies slots) = namedIn slots := by
  unfold namedIn copies
  rw [List.filterMap_map]
  rfl

theorem publish_eq (there : core.tables[index]? = some t) (limit : Nat) (extent : Extent)
    (storage : TableStorage) :
    Core.publish index limit extent storage core =
      (.ok ⟨core.identity, index, t.generation + 1⟩,
        core.setTable index ⟨.live, t.generation + 1, limit, extent, storage⟩) := by
  rw [<- tableAt_eq there]
  rfl

/-- The record of a copy, published over the free record. -/
def copyRecord (t p : TableRecord) (extent : Extent) : TableRecord :=
  { state := .live, generation := t.generation + 1, limit := p.limit, extent := extent,
    storage := Custody.widen (copies p.storage.entries) extent.capacity }

theorem dropSlots_copies {store : OfdStore} {slots : List DescriptorSlot}
    (held : Held store (namedIn slots)) (capacity : Nat) :
    Custody.dropSlots (Custody.widen (copies slots) capacity).entries
      (store.lending (namedIn slots)) = (.ok (), store) := by
  have same : namedIn (Custody.widen (copies slots) capacity).entries = namedIn slots := by
    rw [namedIn_widen, namedIn_copies]
  rw [<- same] at held ⊢
  exact dropSlots_lending held

/-- A copied table holds what its parent holds; a copy that is not published
gives every reference back. -/
theorem forkPublished_concludes (sound : Sound who custody.core pinned ledger) (venue : Venue)
    (parent : TableId) (publisher : TableId -> Except Error Unit) :
    Command.Ends (Concludes (RefusedSound who pinned ledger custody)
      (fun _ after => Sound who after.core pinned ledger))
      (Custody.forkPublished venue parent publisher) custody := by
  have nothing : RefusedSound who pinned ledger custody custody := ⟨Refused.refl custody, sound⟩
  unfold Custody.forkPublished Core.lock
  refine reads_onCore (lock_reads custody.core venue parent _) (fun _ => nothing) ?_
  rintro p ⟨parentThere, _⟩
  refine Command.Ends.observe ?_
  refine Command.Ends.require nothing ?_
  intro _
  refine Command.Ends.require nothing ?_
  intro _
  rcases popTable_cases sound.tables with ⟨index, rest, t, stack, there, isFree, ran⟩ | ran
  · have before := sound.tables.free_empty index t there isFree
    rcases pushTable_returned t sound stack there isFree isFree before.1 before.2 custody.extent with
      ⟨returned, pushed, refused⟩
    rw [withTable_self there] at pushed
    unfold Command.Ends
    rw [Command.bind_of_ok (onCore_eq ran)]
    split_ifs
    · have held := sound.held_slots parentThere
      rw [Command.attempt_bind_apply]
      rcases retainSlots_cases sound.books held with ⟨copied, books⟩ | ⟨reason, failed⟩
      · have retained : Custody.onCore
            (Core.onStore (Custody.retainSlots [] p.storage.entries))
            (custody.withCore (custody.core.withFree rest)) =
              (.ok (copies p.storage.entries), custody.withCore
                ((custody.core.withFree rest).withStore
                  (custody.core.store.lending (namedIn p.storage.entries)))) :=
          onCore_eq (onStore_ok copied)
        have stillThere : ((custody.core.withFree rest).withStore
            (custody.core.store.lending (namedIn p.storage.entries))).tables[index]? = some t :=
          there
        have published : Custody.onCore (Core.publish index p.limit custody.extent
            (Custody.widen (copies p.storage.entries) custody.extent.capacity))
            (custody.withCore ((custody.core.withFree rest).withStore
              (custody.core.store.lending (namedIn p.storage.entries)))) =
              (.ok ⟨custody.core.identity, index, t.generation + 1⟩,
                custody.withCore (((custody.core.withFree rest).withStore
                  (custody.core.store.lending (namedIn p.storage.entries))).setTable index
                    (copyRecord t p custody.extent))) :=
          onCore_eq (publish_eq stillThere _ _ _)
        rw [retained]
        simp only
        rw [Command.bind_of_ok published, Command.edit_bind_apply]
        simp only [Custody.withCore]
        cases publisher ⟨custody.core.identity, index, t.generation + 1⟩ with
        | ok _ =>
          have live : (copyRecord t p custody.extent).state ≠ .free := nofun
          have sound : Sound who ((custody.core.withStore _).withTable index
              (copyRecord t p custody.extent) rest) pinned ledger :=
            published_sound sound stack there isFree live (rebuild_consistent _) books
              (fun ofd => (naming_widen _ _ ofd).trans (naming_copies _ ofd))
          exact sound
        | error reason =>
          have popped : (custody.core.withFree rest).tables[index]? = some t := there
          have dropped : Custody.onCore (Core.onStore (Custody.dropSlots
              (Custody.widen (copies p.storage.entries) custody.extent.capacity).entries))
              ⟨((custody.core.withFree rest).withStore
                (custody.core.store.lending (namedIn p.storage.entries))).setTable index
                  (copyRecord t p custody.extent), Extent.empty⟩ =
                (.ok (), ⟨(custody.core.withFree rest).setTable index
                  (copyRecord t p custody.extent), Extent.empty⟩) :=
            onCore_eq (onStore_ok (dropSlots_copies held _))
          have self : ((custody.core.withFree rest).setTable index
              (copyRecord t p custody.extent)).tableAt index = copyRecord t p custody.extent :=
            tableAt_eq (setTable_self popped _)
          have freed : Core.freeTable index ((custody.core.withFree rest).setTable index
              (copyRecord t p custody.extent)) =
                (.ok (), custody.core.withTable index (copyRecord t p custody.extent).emptied
                  rest) := by
            unfold Core.freeTable
            rw [Command.edit_apply, self]
            unfold Core.setTable Core.withTable Core.withFree
            simp only [List.set_set]
          rcases pushTable_returned (copyRecord t p custody.extent).emptied sound stack
            there isFree rfl rfl rfl custody.extent with ⟨after, pushedAgain, refusedAgain⟩
          simp only
          rw [Command.bind_of_ok dropped, Command.edit_bind_apply, self,
            Command.bind_of_ok (onCore_eq freed), Command.bind_of_ok (onCore_eq pushedAgain)]
          exact refusedAgain
      · have undone : Custody.onCore (Core.onStore (Custody.retainSlots [] p.storage.entries))
            (custody.withCore (custody.core.withFree rest)) =
              (.error reason, custody.withCore (custody.core.withFree rest)) :=
          onCore_eq (onStore_error failed)
        rw [undone]
        simp only
        rw [Command.bind_of_ok (onCore_eq pushed)]
        exact refused
    · rw [Command.bind_of_ok (onCore_eq pushed)]
      exact refused
  · unfold Command.Ends
    rw [Command.bind_of_error (onCore_eq ran)]
    exact nothing

end Extents

end FdCore
end Carrick
