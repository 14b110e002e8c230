import Carrick.FdCore.Descriptions

namespace Carrick
namespace FdCore

open Foundation

/-!
# The accounts of the description records

`Books` compares the store with what the rest of the core owes it: how many
slots name each record, how many pins are outstanding, and which incarnations
were allocated and delivered.  It does not look at the tables, so that an
operation may retain a description before it writes the slot, or write the slot
before it drops the hold.
-/

/-- How many slots are expected to name each record, and the keys that the
outstanding pins hold. -/
structure Counts where
  refs : Nat -> Nat
  pinned : List OfdKey

namespace Counts

/-- How many outstanding pins hold a record. -/
def pins (counts : Counts) (index : Nat) : Nat :=
  counts.pinned.countP (fun key => key.index = index)

def of (counts : Counts) : Hold -> Nat -> Nat
  | .ref => counts.refs
  | .pin => counts.pins

def addRef (counts : Counts) (index : Nat) : Counts :=
  { counts with refs := fun i => counts.refs i + if i = index then 1 else 0 }

def subRef (counts : Counts) (index : Nat) : Counts :=
  { counts with refs := fun i => counts.refs i - if i = index then 1 else 0 }

def addPin (counts : Counts) (key : OfdKey) : Counts :=
  { counts with pinned := key :: counts.pinned }

def subPin (counts : Counts) (key : OfdKey) : Counts :=
  { counts with pinned := counts.pinned.erase key }

/-- One more hold of an incarnation. -/
def add (counts : Counts) (hold : Hold) (key : OfdKey) : Counts :=
  match hold with
  | .ref => counts.addRef key.index
  | .pin => counts.addPin key

/-- One hold of an incarnation less. -/
def sub (counts : Counts) (hold : Hold) (key : OfdKey) : Counts :=
  match hold with
  | .ref => counts.subRef key.index
  | .pin => counts.subPin key

/-- A hold of the incarnation is outstanding. -/
def Owes (counts : Counts) (hold : Hold) (key : OfdKey) : Prop :=
  match hold with
  | .ref => 0 < counts.refs key.index
  | .pin => key ∈ counts.pinned

/-- The word that the two counts of a record make. -/
def word (counts : Counts) (index : Nat) : Nat :=
  refUnit * counts.refs index + counts.pins index

theorem ext {first second : Counts} (refs : ∀ index, first.refs index = second.refs index)
    (pinned : first.pinned = second.pinned) : first = second := by
  cases first
  cases second
  simp only at refs pinned
  rw [funext refs, pinned]

theorem half_word (counts : Counts) (hold : Hold) {index : Nat}
    (fits : counts.pins index < refUnit) :
    hold.half (counts.word index) = counts.of hold index := by
  have positive : 0 < refUnit := by
    rw [refUnit_eq]
    omega
  cases hold with
  | ref =>
    unfold Hold.half word of
    simp only
    rw [Nat.mul_add_div positive, Nat.div_eq_of_lt fits, Nat.add_zero]
  | pin =>
    unfold Hold.half word of
    simp only
    rw [Nat.mul_add_mod, Nat.mod_eq_of_lt fits]

variable {counts : Counts} {hold : Hold} {key : OfdKey} {index : Nat}

theorem pins_addPin (counts : Counts) (key : OfdKey) (index : Nat) :
    (counts.addPin key).pins index = counts.pins index + if key.index = index then 1 else 0 := by
  unfold addPin pins
  rw [List.countP_cons]
  simp

theorem pins_subPin (counts : Counts) {key : OfdKey} (owed : key ∈ counts.pinned) (index : Nat) :
    (counts.subPin key).pins index + (if key.index = index then 1 else 0) = counts.pins index := by
  unfold subPin pins
  rw [(List.perm_cons_erase owed).countP_eq (fun key => key.index = index), List.countP_cons]
  simp

theorem pins_pos (owed : key ∈ counts.pinned) : 0 < counts.pins key.index := by
  unfold pins
  rw [List.countP_pos_iff]
  exact ⟨key, owed, by simp⟩

theorem Owes.of_pos (owed : counts.Owes hold key) : 0 < counts.of hold key.index := by
  cases hold with
  | ref => exact owed
  | pin => exact pins_pos owed

theorem not_pinned (none : counts.pins index = 0) {key : OfdKey} (listed : key ∈ counts.pinned) :
    key.index ≠ index := by
  rintro rfl
  have positive := pins_pos listed
  omega

theorem word_add : (counts.add hold key).word key.index = counts.word key.index + hold.amount := by
  cases hold with
  | ref =>
    show refUnit * (counts.refs key.index + if key.index = key.index then 1 else 0) +
      counts.pins key.index = counts.word key.index + refUnit
    rw [if_pos rfl, Nat.mul_add, Nat.mul_one]
    unfold word
    omega
  | pin =>
    have more := pins_addPin counts key key.index
    rw [if_pos rfl] at more
    show refUnit * counts.refs key.index + (counts.addPin key).pins key.index =
      counts.word key.index + 1
    unfold word
    omega

theorem word_sub (owed : counts.Owes hold key) :
    (counts.sub hold key).word key.index + hold.amount = counts.word key.index := by
  cases hold with
  | ref =>
    have positive : 0 < counts.refs key.index := owed
    have split : refUnit * counts.refs key.index =
        refUnit * (counts.refs key.index - 1) + refUnit := by
      rw [<- Nat.mul_succ]
      congr 1
      omega
    show refUnit * (counts.refs key.index - if key.index = key.index then 1 else 0) +
      counts.pins key.index + refUnit = counts.word key.index
    rw [if_pos rfl]
    unfold word
    omega
  | pin =>
    have fewer := pins_subPin counts owed key.index
    rw [if_pos rfl] at fewer
    show refUnit * counts.refs key.index + (counts.subPin key).pins key.index + 1 =
      counts.word key.index
    unfold word
    omega

theorem of_word_eq_zero (zero : counts.word index = 0) :
    counts.refs index = 0 ∧ counts.pins index = 0 := by
  unfold word at zero
  have unit := refUnit_eq
  rcases Nat.add_eq_zero_iff.mp zero with ⟨noRefs, noPins⟩
  rcases Nat.mul_eq_zero.mp noRefs with impossible | noRefs
  · omega
  · exact ⟨noRefs, noPins⟩

theorem word_eq_zero (refs : counts.refs index = 0) (pins : counts.pins index = 0) :
    counts.word index = 0 := by
  unfold word
  rw [refs, pins, Nat.mul_zero]

end Counts

/-- The counts of one record are the same, and so are the keys of its pins. -/
structure SameCounts (counts after : Counts) (index : Nat) : Prop where
  refs : after.refs index = counts.refs index
  pins : after.pins index = counts.pins index
  pinned : ∀ key : OfdKey, key.index = index -> (key ∈ after.pinned <-> key ∈ counts.pinned)

theorem SameCounts.refl (counts : Counts) (index : Nat) : SameCounts counts counts index :=
  ⟨rfl, rfl, fun _ _ => Iff.rfl⟩

theorem SameCounts.add (counts : Counts) (hold : Hold) (key : OfdKey) {index : Nat}
    (different : index ≠ key.index) : SameCounts counts (counts.add hold key) index := by
  cases hold with
  | ref =>
    refine ⟨?_, rfl, fun _ _ => Iff.rfl⟩
    show counts.refs index + (if index = key.index then 1 else 0) = _
    rw [if_neg different, Nat.add_zero]
  | pin =>
    refine ⟨rfl, ?_, ?_⟩
    · show (counts.addPin key).pins index = _
      rw [Counts.pins_addPin, if_neg (Ne.symm different), Nat.add_zero]
    intro other atIndex
    show other ∈ key :: counts.pinned <-> _
    rw [List.mem_cons]
    constructor
    · rintro (same | listed)
      · rw [same] at atIndex
        exact absurd atIndex.symm different
      · exact listed
    · exact .inr

theorem SameCounts.sub {counts : Counts} {hold : Hold} {key : OfdKey} (owed : counts.Owes hold key)
    {index : Nat} (different : index ≠ key.index) :
    SameCounts counts (counts.sub hold key) index := by
  cases hold with
  | ref =>
    refine ⟨?_, rfl, fun _ _ => Iff.rfl⟩
    show counts.refs index - (if index = key.index then 1 else 0) = _
    rw [if_neg different, Nat.sub_zero]
  | pin =>
    refine ⟨rfl, ?_, ?_⟩
    · have fewer := counts.pins_subPin owed index
      rw [if_neg (Ne.symm different), Nat.add_zero] at fewer
      exact fewer
    intro other atIndex
    show other ∈ counts.pinned.erase key <-> _
    refine List.mem_erase_of_ne ?_
    rintro rfl
    exact different atIndex.symm

/-- The incarnations allocated and delivered so far, newest first.  The code
keeps no such record: it is what deliveries are checked against. -/
structure Ledger where
  allocated : List Release
  delivered : List Release

namespace Ledger

def allocate (ledger : Ledger) (release : Release) : Ledger :=
  { ledger with allocated := release :: ledger.allocated }

def deliver (ledger : Ledger) (releases : List Release) : Ledger :=
  { ledger with delivered := releases.reverse ++ ledger.delivered }

theorem deliver_deliver (ledger : Ledger) (first second : List Release) :
    (ledger.deliver first).deliver second = ledger.deliver (first ++ second) := by
  unfold deliver
  simp only [List.reverse_append, List.append_assoc]

def Allocated (ledger : Ledger) (key : OfdKey) : Prop :=
  key ∈ ledger.allocated.map Release.key

def Delivered (ledger : Ledger) (key : OfdKey) : Prop :=
  key ∈ ledger.delivered.map Release.key

end Ledger

/-- The account of one record: its word is what it is owed, it is on a stack
exactly when nothing holds it, and its earlier incarnations were all allocated
and delivered. -/
structure Account (store : OfdStore) (counts : Counts) (ledger : Ledger) (index : Nat)
    (record : OfdRecord) : Prop where
  holds_eq : record.holds = counts.word index
  refs_lt : counts.refs index < refUnit
  pins_lt : counts.pins index < refUnit
  pinned : ∀ key ∈ counts.pinned, key.index = index ->
    key.generation = record.generation
  generation_lt : record.generation < wordLimit
  usable : record.holds ≠ 0 ∨ index ∈ store.retiredOfds ∨ index ∈ store.freeOfds ->
    record.generation < wordLimit - 1
  unheld : index ∈ store.freeOfds ∨ index ∈ store.retiredOfds -> record.holds = 0
  one_stack : index ∈ store.freeOfds -> index ∉ store.retiredOfds
  idle : record.holds = 0 ->
    index ∈ store.freeOfds ∨ index ∈ store.retiredOfds ∨ record.generation = wordLimit - 1
  allocated_iff : ∀ generation, ledger.Allocated ⟨index, generation⟩ <->
    generation < record.generation ∨
      (generation = record.generation ∧ (record.holds ≠ 0 ∨ index ∈ store.retiredOfds))
  delivered_iff : ∀ generation, ledger.Delivered ⟨index, generation⟩ <->
    generation < record.generation
  current : record.holds ≠ 0 ∨ index ∈ store.retiredOfds ->
    ⟨⟨index, record.generation⟩, record.description⟩ ∈ ledger.allocated

/-- Nothing is known of an index that is not published. -/
structure Unpublished (store : OfdStore) (counts : Counts) (ledger : Ledger) (index : Nat) :
    Prop where
  refs_eq : counts.refs index = 0
  pins_eq : counts.pins index = 0
  not_free : index ∉ store.freeOfds
  not_retired : index ∉ store.retiredOfds
  not_allocated : ∀ generation, ¬ ledger.Allocated ⟨index, generation⟩
  not_delivered : ∀ generation, ¬ ledger.Delivered ⟨index, generation⟩

structure Books (store : OfdStore) (counts : Counts) (ledger : Ledger) : Prop where
  account : ∀ index record, store.records[index]? = some record ->
    Account store counts ledger index record
  unpublished : ∀ index, store.records[index]? = none ->
    Unpublished store counts ledger index
  free_nodup : store.freeOfds.Nodup
  retired_nodup : store.retiredOfds.Nodup
  allocated_nodup : (ledger.allocated.map Release.key).Nodup
  delivered_nodup : (ledger.delivered.map Release.key).Nodup
  delivered_allocated : ∀ release ∈ ledger.delivered, release ∈ ledger.allocated

/-- What an index shows to the accounts is the same before and after. -/
structure SameAt (store after : OfdStore) (counts afterCounts : Counts)
    (ledger afterLedger : Ledger) (index : Nat) : Prop where
  record : after.records[index]? = store.records[index]?
  counts : SameCounts counts afterCounts index
  free : index ∈ after.freeOfds <-> index ∈ store.freeOfds
  retired : index ∈ after.retiredOfds <-> index ∈ store.retiredOfds
  allocated : ∀ release : Release, release.key.index = index ->
    (release ∈ afterLedger.allocated <-> release ∈ ledger.allocated)
  delivered : ∀ release : Release, release.key.index = index ->
    (release ∈ afterLedger.delivered <-> release ∈ ledger.delivered)

namespace SameAt

variable {store after : OfdStore} {counts afterCounts : Counts} {ledger afterLedger : Ledger}
  {index : Nat}

section SameAt

variable (same : SameAt store after counts afterCounts ledger afterLedger index)

include same

theorem allocated_iff (generation : Nat) :
    afterLedger.Allocated ⟨index, generation⟩ <-> ledger.Allocated ⟨index, generation⟩ := by
  unfold Ledger.Allocated
  rw [List.mem_map, List.mem_map]
  constructor
  · rintro ⟨release, listed, key⟩
    exact ⟨release, (same.allocated release (by rw [key])).mp listed, key⟩
  · rintro ⟨release, listed, key⟩
    exact ⟨release, (same.allocated release (by rw [key])).mpr listed, key⟩

theorem delivered_iff (generation : Nat) :
    afterLedger.Delivered ⟨index, generation⟩ <-> ledger.Delivered ⟨index, generation⟩ := by
  unfold Ledger.Delivered
  rw [List.mem_map, List.mem_map]
  constructor
  · rintro ⟨release, listed, key⟩
    exact ⟨release, (same.delivered release (by rw [key])).mp listed, key⟩
  · rintro ⟨release, listed, key⟩
    exact ⟨release, (same.delivered release (by rw [key])).mpr listed, key⟩

theorem account {record : OfdRecord} (account : Account store counts ledger index record) :
    Account after afterCounts afterLedger index record := by
  have word : afterCounts.word index = counts.word index := by
    unfold Counts.word
    rw [same.counts.refs, same.counts.pins]
  refine ⟨?_, ?_, ?_, ?_, account.generation_lt, ?_, ?_, ?_, ?_, ?_, ?_, ?_⟩
  · rw [word]
    exact account.holds_eq
  · rw [same.counts.refs]
    exact account.refs_lt
  · rw [same.counts.pins]
    exact account.pins_lt
  · intro key listed atIndex
    exact account.pinned key ((same.counts.pinned key atIndex).mp listed) atIndex
  · rw [same.free, same.retired]
    exact account.usable
  · rw [same.free, same.retired]
    exact account.unheld
  · rw [same.free, same.retired]
    exact account.one_stack
  · rw [same.free, same.retired]
    exact account.idle
  · intro generation
    rw [same.allocated_iff, same.retired]
    exact account.allocated_iff generation
  · intro generation
    rw [same.delivered_iff]
    exact account.delivered_iff generation
  · rw [same.retired, same.allocated _ rfl]
    exact account.current

theorem unpublished (unpublished : Unpublished store counts ledger index) :
    Unpublished after afterCounts afterLedger index := by
  refine ⟨?_, ?_, ?_, ?_, ?_, ?_⟩
  · rw [same.counts.refs]
    exact unpublished.refs_eq
  · rw [same.counts.pins]
    exact unpublished.pins_eq
  · rw [same.free]
    exact unpublished.not_free
  · rw [same.retired]
    exact unpublished.not_retired
  · intro generation
    rw [same.allocated_iff]
    exact unpublished.not_allocated generation
  · intro generation
    rw [same.delivered_iff]
    exact unpublished.not_delivered generation

end SameAt

end SameAt

namespace Books

variable {store after : OfdStore} {counts afterCounts : Counts} {ledger afterLedger : Ledger}

/-- An operation on one record keeps the books if it keeps that account and
shows the others nothing. -/
theorem change (books : Books store counts ledger) (index : Nat) (record : OfdRecord)
    (others : ∀ other, other ≠ index ->
      SameAt store after counts afterCounts ledger afterLedger other)
    (there : after.records[index]? = some record)
    (account : Account after afterCounts afterLedger index record)
    (free_nodup : after.freeOfds.Nodup) (retired_nodup : after.retiredOfds.Nodup)
    (allocated_nodup : (afterLedger.allocated.map Release.key).Nodup)
    (delivered_nodup : (afterLedger.delivered.map Release.key).Nodup)
    (delivered_allocated : ∀ release ∈ afterLedger.delivered,
      release ∈ afterLedger.allocated) : Books after afterCounts afterLedger := by
  refine ⟨?_, ?_, free_nodup, retired_nodup, allocated_nodup, delivered_nodup, delivered_allocated⟩
  · intro other found present
    by_cases same : other = index
    · subst same
      rw [there, Option.some.injEq] at present
      rw [<- present]
      exact account
    · have untouched := others other same
      rw [untouched.record] at present
      exact untouched.account (books.account other found present)
  · intro other absent
    by_cases same : other = index
    · subst same
      rw [there] at absent
      cases absent
    · have untouched := others other same
      rw [untouched.record] at absent
      exact untouched.unpublished (books.unpublished other absent)

theorem record_of_count (books : Books store counts ledger) (hold : Hold) {index : Nat}
    (owed : 0 < counts.of hold index) : ∃ record, store.records[index]? = some record := by
  cases found : store.records[index]? with
  | some record => exact ⟨record, rfl⟩
  | none =>
    have absent := books.unpublished index found
    cases hold with
    | ref =>
      have positive : 0 < counts.refs index := owed
      rw [absent.refs_eq] at positive
      exact absurd positive (lt_irrefl 0)
    | pin =>
      have positive : 0 < counts.pins index := owed
      rw [absent.pins_eq] at positive
      exact absurd positive (lt_irrefl 0)

end Books

/-! ## Changing one record -/

theorem OfdStore.put_self {store : OfdStore} {index : Nat} {old : OfdRecord}
    (there : store.records[index]? = some old) (record : OfdRecord) :
    (store.put index record).records[index]? = some record := by
  unfold OfdStore.put
  simp only
  rw [List.getElem?_set, if_pos rfl, if_pos (List.getElem?_eq_some_iff.mp there).1]

theorem OfdStore.put_other {store : OfdStore} {index other : Nat} (different : other ≠ index)
    (record : OfdRecord) :
    (store.put index record).records[other]? = store.records[other]? := by
  unfold OfdStore.put
  simp only
  rw [List.getElem?_set, if_neg (Ne.symm different)]

namespace Books

variable {store : OfdStore} {counts : Counts} {ledger : Ledger} {index : Nat} {record : OfdRecord}

section Books

variable (books : Books store counts ledger) (there : store.records[index]? = some record)

include books there

theorem rehold (held : record.holds ≠ 0) {afterCounts : Counts}
    (others : ∀ other, other ≠ index -> SameCounts counts afterCounts other)
    (refs_lt : afterCounts.refs index < refUnit) (pins_lt : afterCounts.pins index < refUnit)
    (pinned : ∀ key ∈ afterCounts.pinned, key.index = index -> key.generation = record.generation)
    (nonzero : afterCounts.word index ≠ 0) :
    Books (store.put index { record with holds := afterCounts.word index }) afterCounts ledger := by
  have account := books.account index record there
  refine books.change index { record with holds := afterCounts.word index } ?_
    (OfdStore.put_self there _) ?_
    books.free_nodup books.retired_nodup books.allocated_nodup books.delivered_nodup
    books.delivered_allocated
  · intro other different
    exact ⟨OfdStore.put_other different _, others other different,
      Iff.rfl, Iff.rfl, fun _ _ => Iff.rfl, fun _ _ => Iff.rfl⟩
  refine ⟨rfl, refs_lt, pins_lt, pinned, account.generation_lt, ?_, ?_, account.one_stack, ?_, ?_,
    account.delivered_iff, ?_⟩
  · intro _
    exact account.usable (.inl held)
  · intro stacked
    exact absurd (account.unheld stacked) held
  · intro zero
    exact absurd zero nonzero
  · intro generation
    rw [account.allocated_iff]
    simp [held, nonzero]
  · intro _
    exact account.current (.inl held)

theorem not_stacked (held : record.holds ≠ 0) :
    index ∉ store.freeOfds ∧ index ∉ store.retiredOfds :=
  ⟨fun free => held ((books.account index record there).unheld (.inl free)),
    fun retired => held ((books.account index record there).unheld (.inr retired))⟩

/-- The last hold goes and the description is delivered: the record, whose word
is zero now, has its generation advanced and returns to the free stack unless
the generation is spent.  `stack` is the retired stack without the record. -/
theorem finish (busy : record.holds ≠ 0 ∨ index ∈ store.retiredOfds) {afterCounts : Counts}
    (others : ∀ other, other ≠ index -> SameCounts counts afterCounts other)
    (settled : afterCounts.refs index = 0 ∧ afterCounts.pins index = 0) (stack : List Nat)
    (removed : ∀ other, other ≠ index -> (other ∈ stack <-> other ∈ store.retiredOfds))
    (gone : index ∉ stack) (stack_nodup : stack.Nodup) :
    Books
      { records := store.records.set index
          { record with holds := 0, generation := (record.generation + 1) % wordLimit },
        freeOfds := if record.generation < wordLimit - 2 then index :: store.freeOfds
          else store.freeOfds,
        retiredOfds := stack }
      afterCounts
      (ledger.deliver [⟨⟨index, record.generation⟩, record.description⟩]) := by
  have account := books.account index record there
  have room : record.generation < wordLimit - 1 := account.usable (by tauto)
  have next : (record.generation + 1) % wordLimit = record.generation + 1 :=
    Nat.mod_eq_of_lt (by omega)
  have notFree : index ∉ store.freeOfds := by
    intro free
    rcases busy with held | retired
    · exact held (account.unheld (.inl free))
    · exact account.one_stack free retired
  have pushed : ∀ other, other ≠ index ->
      (other ∈ (if record.generation < wordLimit - 2 then index :: store.freeOfds
        else store.freeOfds) <-> other ∈ store.freeOfds) := by
    intro other different
    split_ifs
    · simp [different]
    · exact Iff.rfl
  have listed : index ∈ (if record.generation < wordLimit - 2 then index :: store.freeOfds
      else store.freeOfds) <-> record.generation < wordLimit - 2 := by
    split_ifs with short
    · simp [short]
    · simp [short, notFree]
  have freshKey : ¬ ledger.Delivered ⟨index, record.generation⟩ := by
    rw [account.delivered_iff]
    exact lt_irrefl _
  rw [next]
  refine books.change index
    { record with holds := 0, generation := record.generation + 1 } ?_ ?_ ?_ ?_ stack_nodup
    books.allocated_nodup ?_ ?_
  · intro other different
    refine ⟨OfdStore.put_other different _, others other different,
      pushed other different, removed other different, fun _ _ => Iff.rfl, ?_⟩
    intro release atOther
    unfold Ledger.deliver
    rw [List.reverse_singleton, List.singleton_append, List.mem_cons]
    constructor
    · rintro (new | old)
      · rw [new] at atOther
        exact absurd atOther.symm different
      · exact old
    · exact .inr
  · exact OfdStore.put_self there _
  · have word := Counts.word_eq_zero settled.1 settled.2
    refine ⟨word.symm, ?_, ?_, ?_, ?_, ?_, fun _ => rfl, fun _ => gone, ?_, ?_, ?_, ?_⟩
    · rw [settled.1, refUnit_eq]
      omega
    · rw [settled.2, refUnit_eq]
      omega
    · intro key listed atIndex
      exact absurd atIndex (Counts.not_pinned settled.2 listed)
    · simp only
      omega
    · rintro (held | retired | free)
      · exact absurd rfl held
      · exact absurd retired gone
      · have short := listed.mp free
        simp only
        omega
    · intro _
      by_cases short : record.generation < wordLimit - 2
      · exact .inl (listed.mpr short)
      · refine .inr (.inr ?_)
        simp only
        omega
    · intro generation
      show ledger.Allocated _ <-> _
      rw [account.allocated_iff]
      simp only [ne_eq, not_true, gone, or_self, and_false, or_false]
      constructor
      · rintro (older | ⟨same, _⟩)
        · omega
        · omega
      · intro below
        rcases Nat.lt_or_eq_of_le (Nat.lt_succ_iff.mp below) with older | same
        · exact .inl older
        · exact .inr ⟨same, busy⟩
    · intro generation
      unfold Ledger.Delivered Ledger.deliver
      rw [List.reverse_singleton, List.singleton_append, List.map_cons, List.mem_cons]
      have before := account.delivered_iff generation
      unfold Ledger.Delivered at before
      rw [before, OfdKey.mk.injEq]
      simp only [true_and]
      omega
    · rintro (held | retired)
      · exact absurd rfl held
      · exact absurd retired gone
  · split_ifs
    · exact List.nodup_cons.mpr ⟨notFree, books.free_nodup⟩
    · exact books.free_nodup
  · unfold Ledger.deliver
    rw [List.reverse_singleton, List.singleton_append, List.map_cons]
    exact List.nodup_cons.mpr ⟨freshKey, books.delivered_nodup⟩
  intro release delivered
  unfold Ledger.deliver at delivered
  rw [List.reverse_singleton, List.singleton_append, List.mem_cons] at delivered
  rcases delivered with new | old
  · rw [new]
    exact account.current busy
  · exact books.delivered_allocated release old

/-- The last hold goes and the release waits on the retired stack. -/
theorem defer (held : record.holds ≠ 0) {afterCounts : Counts}
    (others : ∀ other, other ≠ index -> SameCounts counts afterCounts other)
    (settled : afterCounts.refs index = 0 ∧ afterCounts.pins index = 0) :
    Books
      { records := store.records.set index { record with holds := 0 },
        freeOfds := store.freeOfds, retiredOfds := index :: store.retiredOfds }
      afterCounts ledger := by
  have account := books.account index record there
  have unstacked := books.not_stacked there held
  refine books.change index { record with holds := 0 } ?_ (OfdStore.put_self there _) ?_
    books.free_nodup (List.nodup_cons.mpr ⟨unstacked.2, books.retired_nodup⟩) books.allocated_nodup
    books.delivered_nodup books.delivered_allocated
  · intro other different
    refine ⟨OfdStore.put_other different _, others other different,
      Iff.rfl, ?_, fun _ _ => Iff.rfl, fun _ _ => Iff.rfl⟩
    simp [different]
  have word := Counts.word_eq_zero settled.1 settled.2
  have room := account.usable (.inl held)
  refine ⟨word.symm, ?_, ?_, ?_, account.generation_lt, fun _ => room, fun _ => rfl, ?_, ?_, ?_,
    account.delivered_iff, fun _ => account.current (.inl held)⟩
  · rw [settled.1, refUnit_eq]
    omega
  · rw [settled.2, refUnit_eq]
    omega
  · intro key listed atIndex
    exact absurd atIndex (Counts.not_pinned settled.2 listed)
  · intro free
    exact absurd free unstacked.1
  · intro _
    exact .inr (.inl (by simp))
  · intro generation
    rw [account.allocated_iff]
    simp [held]

end Books

theorem allocate (books : Books store counts ledger) {rest : List Nat}
    (top : store.freeOfds = index :: rest) (there : store.records[index]? = some record)
    (description : Description) {afterCounts : Counts}
    (others : ∀ other, other ≠ index -> SameCounts counts afterCounts other)
    (refs_lt : afterCounts.refs index < refUnit) (pins_lt : afterCounts.pins index < refUnit)
    (pinned : ∀ key ∈ afterCounts.pinned, key.index = index ->
      key.generation = record.generation)
    (nonzero : afterCounts.word index ≠ 0) :
    Books
      { records := store.records.set index
          { generation := record.generation, holds := afterCounts.word index,
            description := description },
        freeOfds := rest, retiredOfds := store.retiredOfds }
      afterCounts (ledger.allocate ⟨⟨index, record.generation⟩, description⟩) := by
  have account := books.account index record there
  have free : index ∈ store.freeOfds := by
    rw [top]
    simp
  have popped := books.free_nodup
  rw [top, List.nodup_cons] at popped
  have unheld := account.unheld (.inl free)
  have notRetired := account.one_stack free
  have freshKey : ¬ ledger.Allocated ⟨index, record.generation⟩ := by
    rw [account.allocated_iff]
    simp [unheld, notRetired]
  refine books.change index _ ?_ (OfdStore.put_self there _) ?_ popped.2 books.retired_nodup ?_
    books.delivered_nodup ?_
  · intro other different
    refine ⟨OfdStore.put_other different _, others other different,
      ?_, Iff.rfl, ?_, fun _ _ => Iff.rfl⟩
    · rw [top]
      simp [different]
    intro release atOther
    unfold Ledger.allocate
    rw [List.mem_cons]
    constructor
    · rintro (new | old)
      · rw [new] at atOther
        exact absurd atOther.symm different
      · exact old
    · exact .inr
  · refine ⟨rfl, refs_lt, pins_lt, pinned, account.generation_lt,
      fun _ => account.usable (.inr (.inr free)), ?_, ?_, ?_, ?_, account.delivered_iff, ?_⟩
    · rintro (stillFree | retired)
      · exact absurd stillFree popped.1
      · exact absurd retired notRetired
    · intro stillFree
      exact absurd stillFree popped.1
    · intro zero
      exact absurd zero nonzero
    · intro generation
      unfold Ledger.Allocated Ledger.allocate
      rw [List.map_cons, List.mem_cons]
      have before := account.allocated_iff generation
      unfold Ledger.Allocated at before
      rw [before, OfdKey.mk.injEq]
      simp [unheld, notRetired, nonzero, or_comm]
    · intro _
      unfold Ledger.allocate
      simp
  · unfold Ledger.allocate
    rw [List.map_cons]
    exact List.nodup_cons.mpr ⟨freshKey, books.allocated_nodup⟩
  · intro release delivered
    unfold Ledger.allocate
    rw [List.mem_cons]
    exact .inr (books.delivered_allocated release delivered)

end Books

end FdCore
end Carrick
