import Mathlib.Data.List.Nodup
import Carrick.FdCore.Books

namespace Carrick
namespace FdCore

open Foundation

/-!
# The operations on holds keep the books

One specification for each operation of the store: what it answers, and which
counts and which ledger the store it leaves behind agrees with.
-/

/-! ## The operations as equations -/

section Equations

variable {store : OfdStore} {index : Nat} {record : OfdRecord}

theorem ofd_bind {β : Type} (there : store.records[index]? = some record)
    (next : OfdRecord -> OfdStore.Action β) :
    (OfdStore.ofd index >>= next) store = next record store := by
  have ran : OfdStore.ofd index store = (.ok record, store) := by
    unfold OfdStore.ofd
    rw [Command.observe_bind_apply, there]
    rfl
  rw [Command.bind_of_ok ran]

theorem setRecord_bind {β : Type} (next : Unit -> OfdStore.Action β) :
    (OfdStore.setRecord index record >>= next) store = next () (store.put index record) :=
  rfl

theorem retain_eq (there : store.records[index]? = some record) (hold : Hold) :
    OfdStore.retain index hold store =
      if record.holds ≠ 0 ∧ hold.half record.holds ≠ freeIndex then
        (.ok (), store.put index { record with holds := record.holds + hold.amount })
      else (.error .noMemory, store) := by
  unfold OfdStore.retain
  rw [ofd_bind there]
  split_ifs with room
  · rw [Command.require_bind_true (by simpa using room)]
    rfl
  · rw [Command.require_bind_false (by simpa using room)]

/-- The store after a record's final release. -/
def OfdStore.freed (store : OfdStore) (index : Nat) (record : OfdRecord) : OfdStore :=
  { store with
    records := store.records.set index
      { record with holds := 0, generation := (record.generation + 1) % wordLimit },
    freeOfds := if record.generation < wordLimit - 2 then index :: store.freeOfds
      else store.freeOfds }

theorem freeOfd_eq (there : store.records[index]? = some record) (unheld : record.holds = 0) :
    OfdStore.freeOfd index store = (.ok (), store.freed index record) := by
  unfold OfdStore.freeOfd OfdStore.freed
  rw [ofd_bind there]
  have same : { record with generation := (record.generation + 1) % wordLimit } =
      { record with holds := 0, generation := (record.generation + 1) % wordLimit } := by
    rw [<- unheld]
  rw [same]
  rw [setRecord_bind]
  split_ifs with room
  · rfl
  · rfl

theorem freeOfd_put (there : store.records[index]? = some record) {holds : Nat} (last : holds = 0) :
    OfdStore.freeOfd index (store.put index { record with holds := holds }) =
      (.ok (), store.freed index record) := by
  rw [freeOfd_eq (OfdStore.put_self there _) last]
  unfold OfdStore.freed OfdStore.put
  simp only [List.set_set]

theorem dropHold_eq (there : store.records[index]? = some record) {hold : Hold}
    (owed : hold.half record.holds ≠ 0) :
    OfdStore.dropHold index hold store =
      if record.holds ≠ hold.amount then
        (.ok none, store.put index { record with holds := record.holds - hold.amount })
      else (.ok (some ⟨⟨index, record.generation⟩, record.description⟩), store.freed index record) := by
  unfold OfdStore.dropHold
  rw [ofd_bind there, Command.require_bind_true (by simpa using owed)]
  rw [setRecord_bind]
  split_ifs with more
  · rfl
  · rw [ne_eq, not_not] at more
    rw [Command.bind_of_ok (freeOfd_put there (by rw [more, Nat.sub_self])), Command.pure_apply]

theorem dropHoldFiltered_eq (there : store.records[index]? = some record) {hold : Hold}
    (owed : hold.half record.holds ≠ 0) (releaseHere : Description -> Bool) :
    OfdStore.dropHoldFiltered index hold releaseHere store =
      if record.holds ≠ hold.amount then
        (.ok .none, store.put index { record with holds := record.holds - hold.amount })
      else if releaseHere record.description then
        (.ok (.now ⟨⟨index, record.generation⟩, record.description⟩), store.freed index record)
      else
        (.ok .deferred,
          { store with
            records := store.records.set index { record with holds := 0 },
            retiredOfds := index :: store.retiredOfds }) := by
  unfold OfdStore.dropHoldFiltered
  rw [ofd_bind there, Command.require_bind_true (by simpa using owed)]
  rw [setRecord_bind]
  split_ifs with more here
  · rfl
  · rw [ne_eq, not_not] at more
    rw [Command.bind_of_ok (freeOfd_put there (by rw [more, Nat.sub_self])), Command.pure_apply]
  · rw [ne_eq, not_not] at more
    simp only [more, Nat.sub_self, Command.edit_bind_apply, Command.pure_apply, OfdStore.put]

end Equations

/-! ## What they do to the books -/

section Specs

variable {store : OfdStore} {counts : Counts} {ledger : Ledger} {index : Nat} {record : OfdRecord}
  {hold : Hold}

theorem refUnit_pos : 0 < refUnit := by
  rw [refUnit_eq]
  omega

theorem Hold.amount_pos (hold : Hold) : 0 < hold.amount := by
  cases hold with
  | ref => exact refUnit_pos
  | pin => exact Nat.one_pos

theorem retain_spec (books : Books store counts ledger) (hold : Hold)
    (there : store.records[index]? = some record) :
    (∃ after, OfdStore.retain index hold store = (.ok (), after) ∧
      after.records[index]? = some { record with holds := record.holds + hold.amount } ∧
      Books after (counts.add hold ⟨index, record.generation⟩) ledger) ∨
      OfdStore.retain index hold store = (.error .noMemory, store) := by
  rw [retain_eq there]
  split_ifs with room
  · refine .inl ⟨_, rfl, OfdStore.put_self there _, ?_⟩
    have account := books.account index record there
    have half := counts.half_word hold account.pins_lt
    rw [<- account.holds_eq] at half
    have unsaturated := room.2
    rw [half] at unsaturated
    have word : record.holds + hold.amount =
        (counts.add hold ⟨index, record.generation⟩).word index := by
      rw [Counts.word_add, account.holds_eq]
    have positive := hold.amount_pos
    have unit := refUnit_eq
    have refs := account.refs_lt
    have pins := account.pins_lt
    rw [word]
    refine books.rehold there room.1
      (fun other different => SameCounts.add counts hold ⟨index, record.generation⟩ different)
      ?_ ?_ ?_ (by omega)
    · cases hold with
      | ref =>
        have notFull : counts.refs index ≠ freeIndex := unsaturated
        show counts.refs index + (if index = index then 1 else 0) < refUnit
        rw [if_pos rfl]
        omega
      | pin => exact refs
    · cases hold with
      | ref => exact pins
      | pin =>
        have notFull : counts.pins index ≠ freeIndex := unsaturated
        show (counts.addPin ⟨index, record.generation⟩).pins index < refUnit
        rw [Counts.pins_addPin, if_pos rfl]
        omega
    cases hold with
    | ref => exact account.pinned
    | pin =>
      intro key listed atIndex
      rcases List.mem_cons.mp listed with same | older
      · rw [same]
      · exact account.pinned key older atIndex
  · exact .inr rfl

/-- What a dropped hold leaves of the counts, when the word does not become
zero, and when it does. -/
theorem drop_cases (books : Books store counts ledger) {key : OfdKey}
    (there : store.records[key.index]? = some record) (owed : counts.Owes hold key) :
    hold.half record.holds ≠ 0 ∧ record.holds ≠ 0 ∧
      (record.holds ≠ hold.amount ->
        Books (store.put key.index { record with holds := record.holds - hold.amount })
          (counts.sub hold key) ledger) ∧
      (record.holds = hold.amount ->
        (counts.sub hold key).refs key.index = 0 ∧ (counts.sub hold key).pins key.index = 0) := by
  have account := books.account key.index record there
  have half := counts.half_word hold account.pins_lt
  rw [<- account.holds_eq] at half
  have word := Counts.word_sub owed
  rw [<- account.holds_eq] at word
  have positive := hold.amount_pos
  have some := owed.of_pos
  have refs := account.refs_lt
  have pins := account.pins_lt
  refine ⟨by omega, by omega, ?_, ?_⟩
  · intro more
    have rest : record.holds - hold.amount = (counts.sub hold key).word key.index := by omega
    rw [rest]
    refine books.rehold there (by omega) (fun other different => SameCounts.sub owed different)
      ?_ ?_ ?_ (by omega)
    · cases hold with
      | ref =>
        show counts.refs key.index - (if key.index = key.index then 1 else 0) < refUnit
        omega
      | pin => exact refs
    · cases hold with
      | ref => exact pins
      | pin =>
        have fewer := counts.pins_subPin owed key.index
        show (counts.subPin key).pins key.index < refUnit
        omega
    · cases hold with
      | ref => exact account.pinned
      | pin =>
        intro other listed atIndex
        exact account.pinned other (List.mem_of_mem_erase listed) atIndex
  · intro last
    exact Counts.of_word_eq_zero (by omega)

/-- A hold that is owed can be dropped, and a final release is delivered. -/
theorem dropHold_spec (hold : Hold) (key : OfdKey) (books : Books store counts ledger)
    (owed : counts.Owes hold key) :
    ∃ answer after, OfdStore.dropHold key.index hold store = (.ok answer, after) ∧
      Books after (counts.sub hold key) (ledger.deliver answer.toList) ∧
      ∀ release ∈ answer.toList, release.key.index = key.index := by
  rcases books.record_of_count hold owed.of_pos with ⟨record, there⟩
  rcases drop_cases books there owed with ⟨half, held, more, last⟩
  rw [dropHold_eq there half]
  split_ifs with remains
  · exact ⟨_, _, rfl, more remains, by simp⟩
  rw [ne_eq, not_not] at remains
  refine ⟨_, _, rfl, ?_, by simp⟩
  exact books.finish there (.inl held) (fun other different => SameCounts.sub owed different)
    (last remains) store.retiredOfds (fun _ _ => Iff.rfl) (books.not_stacked there held).2
    books.retired_nodup

/-- The releases that a filtered drop delivers at once. -/
def DeferredRelease.delivered : DeferredRelease -> List Release
  | .none => []
  | .now release => [release]
  | .deferred => []

theorem dropHoldFiltered_spec (hold : Hold) (key : OfdKey) (books : Books store counts ledger)
    (owed : counts.Owes hold key) (releaseHere : Description -> Bool) :
    ∃ answer after,
      OfdStore.dropHoldFiltered key.index hold releaseHere store = (.ok answer, after) ∧
        Books after (counts.sub hold key) (ledger.deliver answer.delivered) ∧
        ∀ release ∈ answer.delivered, release.key.index = key.index := by
  rcases books.record_of_count hold owed.of_pos with ⟨record, there⟩
  rcases drop_cases books there owed with ⟨half, held, more, last⟩
  rw [dropHoldFiltered_eq there half]
  split_ifs with remains here
  · exact ⟨_, _, rfl, more remains, by simp [DeferredRelease.delivered]⟩
  · rw [ne_eq, not_not] at remains
    refine ⟨_, _, rfl, ?_, by simp [DeferredRelease.delivered]⟩
    exact books.finish there (.inl held) (fun other different => SameCounts.sub owed different)
      (last remains) store.retiredOfds (fun _ _ => Iff.rfl) (books.not_stacked there held).2
      books.retired_nodup
  · rw [ne_eq, not_not] at remains
    exact ⟨_, _, rfl,
      books.defer there held (fun other different => SameCounts.sub owed different) (last remains),
      by simp [DeferredRelease.delivered]⟩

theorem takeRetiredOfd_spec (books : Books store counts ledger) :
    ∃ answer after, OfdStore.takeRetiredOfd store = (.ok answer, after) ∧
      Books after counts (ledger.deliver answer.toList) := by
  unfold OfdStore.takeRetiredOfd
  rw [Command.observe_bind_apply]
  cases stack : store.retiredOfds with
  | nil => exact ⟨none, store, rfl, books⟩
  | cons index rest =>
    have retired : index ∈ store.retiredOfds := by
      rw [stack]
      simp
    have popped := books.retired_nodup
    rw [stack, List.nodup_cons] at popped
    cases found : store.records[index]? with
    | none => exact absurd retired (books.unpublished index found).not_retired
    | some record =>
      have account := books.account index record found
      have inside := (List.getElem?_eq_some_iff.mp found).1
      have unheld := account.unheld (.inr retired)
      have settled : counts.refs index = 0 ∧ counts.pins index = 0 := by
        have word := account.holds_eq
        rw [unheld] at word
        exact Counts.of_word_eq_zero word.symm
      simp only [List.head?_cons, Command.observe_bind_apply]
      rw [if_neg (by omega), Command.edit_bind_apply]
      have kept : ({ store with retiredOfds := store.retiredOfds.tail } : OfdStore).records[index]? =
          some record := found
      rw [ofd_bind kept, Command.bind_of_ok (freeOfd_eq kept unheld)]
      refine ⟨_, _, rfl, ?_⟩
      rw [stack, List.tail_cons]
      refine books.finish found (.inr retired) (fun other _ => SameCounts.refl counts other) settled
        rest ?_
        popped.1 popped.2
      intro other different
      rw [stack]
      simp [different]

/-- An allocated record was free, and its word is that of the counts after. -/
theorem allocOfd_spec (books : Books store counts ledger) (description : Description) :
    (∃ key after, store.nextKey = some key ∧
      OfdStore.allocOfd description store = (.ok key.index, after) ∧
      after.records[key.index]? = some ⟨key.generation, refUnit, description⟩ ∧
      Books after (counts.addRef key.index) (ledger.allocate ⟨key, description⟩)) ∨
      (store.nextKey = none ∧
        OfdStore.allocOfd description store = (.error .needsOfds, store)) := by
  unfold OfdStore.allocOfd
  rw [Command.observe_bind_apply]
  cases stack : store.freeOfds with
  | nil =>
    have noKey : store.nextKey = none := by
      unfold OfdStore.nextKey
      rw [stack]
    rw [noKey]
    exact .inr ⟨rfl, rfl⟩
  | cons index rest =>
    have free : index ∈ store.freeOfds := by
      rw [stack]
      simp
    cases found : store.records[index]? with
    | none => exact absurd free (books.unpublished index found).not_free
    | some record =>
      have key : store.nextKey = some ⟨index, record.generation⟩ := by
        unfold OfdStore.nextKey
        rw [stack]
        simp only [found, Option.map_some]
      have account := books.account index record found
      have noWord := account.holds_eq
      rw [account.unheld (.inl free)] at noWord
      have unit := refUnit_pos
      have word : (counts.addRef index).word index = refUnit := by
        have added : (counts.add .ref ⟨index, record.generation⟩).word index =
            counts.word index + refUnit := Counts.word_add
        rw [<- noWord, Nat.zero_add] at added
        exact added
      refine .inl ⟨⟨index, record.generation⟩,
        ({ store with freeOfds := store.freeOfds.tail } : OfdStore).put index
          ⟨record.generation, refUnit, description⟩, key, ?_, ?_, ?_⟩
      · rw [key, Command.demand_bind_some rfl, Command.edit_bind_apply]
        rfl
      · have kept : ({ store with freeOfds := store.freeOfds.tail } : OfdStore).records[index]? =
            some record := found
        exact OfdStore.put_self kept _
      have allocated := books.allocate stack found description
        (fun other different =>
          SameCounts.add counts .ref ⟨index, record.generation⟩ different)
        (by
          have refs := (Counts.of_word_eq_zero noWord.symm).1
          have bound := refUnit_eq
          have large := freeIndex_pos
          show counts.refs index + (if index = index then 1 else 0) < refUnit
          rw [if_pos rfl]
          omega)
        account.pins_lt account.pinned (show (counts.addRef index).word index ≠ 0 by omega)
      have shape : counts.add .ref ⟨index, record.generation⟩ = counts.addRef index := rfl
      rw [shape, word] at allocated
      simp only [stack, List.tail_cons]
      exact allocated

theorem account_zeroed (unpublished : Unpublished store counts ledger index) {after : OfdStore}
    (free : index ∈ after.freeOfds) (notRetired : index ∉ after.retiredOfds) :
    Account after counts ledger index OfdRecord.zeroed := by
  have unit := refUnit_pos
  have large : 0 < wordLimit - 1 := by decide
  refine ⟨?_, ?_, ?_, ?_, ?_, ?_, fun _ => rfl, fun _ => notRetired, fun _ => .inl free, ?_, ?_,
    ?_⟩
  · exact (Counts.word_eq_zero unpublished.refs_eq unpublished.pins_eq).symm
  · rw [unpublished.refs_eq]
    exact unit
  · rw [unpublished.pins_eq]
    exact unit
  · intro key listed atIndex
    exact absurd atIndex (Counts.not_pinned unpublished.pins_eq listed)
  · exact wordLimit_pos
  · intro _
    exact large
  · intro generation
    refine iff_of_false (unpublished.not_allocated generation) ?_
    rintro (below | ⟨_, held | retired⟩)
    · exact absurd below (Nat.not_lt_zero _)
    · exact absurd rfl held
    · exact absurd retired notRetired
  · intro generation
    exact iff_of_false (unpublished.not_delivered generation) (Nat.not_lt_zero _)
  · rintro (held | retired)
    · exact absurd rfl held
    · exact absurd retired notRetired

theorem publishOfds_spec (books : Books store counts ledger) (provided : Bool) (count : Nat) :
    Books (OfdStore.publishOfds provided count store).2 counts ledger := by
  show Command.Ends (fun _ after => Books after counts ledger)
    (OfdStore.publishOfds provided count) store
  unfold OfdStore.publishOfds
  refine Command.Ends.observe ?_
  refine Command.Ends.require books ?_
  intro _
  split_ifs with nothing
  · exact books
  refine Command.Ends.require books ?_
  intro _
  show Books
    { records := store.records ++ List.replicate count OfdRecord.zeroed,
      freeOfds := (List.range count).map (fun index => store.records.length + index) ++
        store.freeOfds,
      retiredOfds := store.retiredOfds } counts ledger
  have fresh : ∀ index,
      index ∈ (List.range count).map (fun index => store.records.length + index) <->
        store.records.length <= index ∧ index < store.records.length + count := by
    intro index
    rw [List.mem_map]
    constructor
    · rintro ⟨offset, inside, same⟩
      rw [List.mem_range] at inside
      omega
    · rintro ⟨lower, upper⟩
      exact ⟨index - store.records.length, List.mem_range.mpr (by omega), by omega⟩
  have older : ∀ index, index < store.records.length ->
      SameAt store
        { records := store.records ++ List.replicate count OfdRecord.zeroed,
          freeOfds := (List.range count).map (fun index => store.records.length + index) ++
            store.freeOfds,
          retiredOfds := store.retiredOfds } counts counts ledger ledger index := by
    intro index inside
    refine ⟨List.getElem?_append_left inside, SameCounts.refl counts index, ?_, Iff.rfl,
      fun _ _ => Iff.rfl, fun _ _ => Iff.rfl⟩
    rw [List.mem_append, fresh]
    constructor
    · rintro (⟨wrong, _⟩ | free)
      · omega
      · exact free
    · exact .inr
  refine ⟨?_, ?_, ?_, books.retired_nodup, books.allocated_nodup, books.delivered_nodup,
    books.delivered_allocated⟩
  · intro index record there
    by_cases inside : index < store.records.length
    · have same := older index inside
      rw [same.record] at there
      exact same.account (books.account index record there)
    have new : index - store.records.length < count := by
      have bound := (List.getElem?_eq_some_iff.mp there).1
      rw [List.length_append, List.length_replicate] at bound
      omega
    simp only at there
    rw [List.getElem?_append_right (by omega), List.getElem?_replicate, if_pos new,
      Option.some.injEq] at there
    rw [<- there]
    have unpublished := books.unpublished index (List.getElem?_eq_none (by omega))
    refine account_zeroed unpublished ?_ unpublished.not_retired
    rw [List.mem_append, fresh]
    exact .inl (by omega)
  · intro index absent
    have beyond := List.getElem?_eq_none_iff.mp absent
    rw [List.length_append, List.length_replicate] at beyond
    have unpublished := books.unpublished index (List.getElem?_eq_none (by omega))
    refine ⟨unpublished.refs_eq, unpublished.pins_eq, ?_, unpublished.not_retired,
      unpublished.not_allocated, unpublished.not_delivered⟩
    rw [List.mem_append, fresh]
    rintro (⟨_, wrong⟩ | free)
    · omega
    · exact unpublished.not_free free
  · refine List.nodup_append.mpr ⟨?_, books.free_nodup, ?_⟩
    · refine List.Nodup.map ?_ List.nodup_range
      intro first second same
      simpa using same
    · rintro index new other free rfl
      have unpublished := books.unpublished index
        (List.getElem?_eq_none ((fresh index).mp new).1)
      exact unpublished.not_free free

end Specs

end FdCore
end Carrick
