import Carrick.Zone.Lists

namespace Carrick
namespace Zone

open Foundation

/-!
# The chains of the records

A record's entries are on a chain of their own, newest first, which the record
heads and counts.  A new entry is pushed on it, and an entry leaves it after a
search along the siblings for the link that leads to it.
-/

/-- Every record heads a chain of its entries, one for each futex that its park
waits on, and no entry is in two chains. -/
structure Chained (zone : Tables) (chain : Nat -> List Nat) : Prop where
  path : ∀ record,
    Path (fun id => (zone.entry id).sibling) (zone.record record).firstEntry (chain record) 0
  count : ∀ record, (zone.record record).entryCount = (chain record).length
  nodup : ∀ record, (chain record).Nodup
  nonzero : ∀ record, 0 ∉ chain record
  apart : ∀ record other id, id ∈ chain record -> id ∈ chain other -> record = other

/-! ## Dropping an entry -/

/-- The link at `holder` leads past `id`. -/
def cutLink (zone : Tables) (record id holder : Nat) : Tables :=
  let stored :=
    if holder = 0 then
      zone.setRecord record { zone.record record with firstEntry := (zone.entry id).sibling }
    else zone.setEntry holder { zone.entry holder with sibling := (zone.entry id).sibling }
  stored.setRecord record
    { stored.record record with entryCount := (stored.record record).entryCount - 1 }

section Cut

variable (zone : Tables) {record other id holder node : Nat}

theorem cutLink_bucket : (cutLink zone record id holder).bucket = zone.bucket := by
  unfold cutLink
  dsimp only
  split_ifs
  · rfl
  · rfl

theorem cutLink_entryMap : (cutLink zone record id holder).entryMap = zone.entryMap := by
  unfold cutLink
  dsimp only
  split_ifs
  · rfl
  · rfl

theorem cutLink_record : (cutLink zone record id holder).record other =
    if other = record then
      { zone.record record with
        firstEntry := if holder = 0 then (zone.entry id).sibling
          else (zone.record record).firstEntry,
        entryCount := (zone.record record).entryCount - 1 }
    else zone.record other := by
  unfold cutLink
  dsimp only
  rw [setRecord_record]
  by_cases same : other = record
  · rw [if_pos same, if_pos same]
    split_ifs
    · rw [setRecord_record, if_pos rfl]
    · rfl
  · rw [if_neg same, if_neg same]
    split_ifs
    · rw [setRecord_record, if_neg same]
    · rfl

theorem cutLink_entry : (cutLink zone record id holder).entry node =
    if node = holder ∧ node ≠ 0 then { zone.entry node with sibling := (zone.entry id).sibling }
    else zone.entry node := by
  unfold cutLink
  dsimp only
  by_cases head : holder = 0
  · rw [if_pos head, if_neg (fun both => both.2 (both.1.trans head) : ¬ (node = holder ∧ node ≠ 0))]
    rfl
  rw [if_neg head]
  show (zone.setEntry holder _).entry node = _
  rw [setEntry_entry]
  by_cases same : node = holder
  · rw [if_pos same, if_pos ⟨same, fun wrong => head (same.symm.trans wrong)⟩, same]
  · rw [if_neg same, if_neg (fun both => same both.1 : ¬ (node = holder ∧ node ≠ 0))]

theorem dropLink_cases (fuel : Nat) : zone.dropLink record id fuel holder = zone ∨
    ∃ found, zone.dropLink record id fuel holder = cutLink zone record id found := by
  induction fuel generalizing holder with
  | zero => exact .inl rfl
  | succ fuel ih =>
    unfold Tables.dropLink
    dsimp only
    by_cases none : (if holder = 0 then (zone.record record).firstEntry
        else (zone.entry holder).sibling) = 0
    · rw [if_pos none]
      exact .inl rfl
    rw [if_neg none]
    by_cases found : (if holder = 0 then (zone.record record).firstEntry
        else (zone.entry holder).sibling) = id
    · rw [if_pos found]
      exact .inr ⟨holder, rfl⟩
    · rw [if_neg found]
      exact ih

theorem dropLink_eq {front back : List Nat} {fuel : Nat} (enough : front.length < fuel)
    (path : Path (fun id => (zone.entry id).sibling)
      (if holder = 0 then (zone.record record).firstEntry else (zone.entry holder).sibling)
      (front ++ id :: back) 0)
    (nonzero : 0 ∉ front ++ id :: back) (absent : id ∉ front) :
    zone.dropLink record id fuel holder = cutLink zone record id (front.getLast?.getD holder) := by
  induction front generalizing holder fuel with
  | nil =>
    cases fuel with
    | zero => exact absurd enough (Nat.not_lt_zero _)
    | succ fuel =>
      have here := path.1
      have used : id ≠ 0 := fun wrong => nonzero (by simp [wrong])
      unfold Tables.dropLink
      dsimp only
      rw [here, if_neg used, if_pos rfl]
      rfl
  | cons head rest ih =>
    cases fuel with
    | zero => exact absurd enough (Nat.not_lt_zero _)
    | succ fuel =>
      have here := path.1
      have used : head ≠ 0 := fun wrong => nonzero (by simp [wrong])
      have other : head ≠ id := fun wrong => absent (by simp [wrong])
      unfold Tables.dropLink
      dsimp only
      rw [here, if_neg used, if_neg other]
      have lastOf : (head :: rest).getLast?.getD holder = rest.getLast?.getD head := by
        rw [List.getLast?_cons]
        rfl
      rw [lastOf]
      refine ih (Nat.lt_of_succ_lt_succ enough) ?_ ?_ ?_
      · rw [if_neg used]
        exact path.2
      · exact fun wrong => nonzero (List.mem_cons_of_mem _ wrong)
      · exact fun wrong => absent (List.mem_cons_of_mem _ wrong)

end Cut

namespace Chained

variable {zone later : Tables} {chain : Nat -> List Nat} {record id : Nat}

/-- The chains do not depend on the other fields of the entries and records. -/
theorem frame (chained : Chained zone chain)
    (sibling : ∀ record id, id ∈ chain record ->
      (later.entry id).sibling = (zone.entry id).sibling)
    (first : ∀ record, (later.record record).firstEntry = (zone.record record).firstEntry)
    (count : ∀ record, (later.record record).entryCount = (zone.record record).entryCount) :
    Chained later chain where
  path := by
    intro record
    rw [first]
    exact (chained.path record).frame (sibling record)
  count := by
    intro record
    rw [count]
    exact chained.count record
  nodup := chained.nodup
  nonzero := chained.nonzero
  apart := chained.apart

theorem dropEntry (chained : Chained zone chain) (listed : id ∈ chain record)
    (small : (chain record).length <= zoneEntries) :
    Chained (zone.dropEntry record id)
      (Function.update chain record ((chain record).erase id)) := by
  rcases List.append_of_mem listed with ⟨front, back, shape⟩
  have once := chained.nodup record
  have path := chained.path record
  have used := chained.nonzero record
  rw [shape] at once path small used
  have erased := erase_middle once
  have rest : (front ++ back).Nodup := once.sublist (by simp)
  have notFront : id ∉ front := fun wrong =>
    (List.nodup_append.mp once).2.2 id wrong id (by simp) rfl
  have notBack : id ∉ back := (List.nodup_cons.mp (List.nodup_append.mp once).2.1).1
  have zeroLast : front.getLast? ≠ some 0 := fun wrong =>
    used (List.mem_append_left _ (List.mem_of_getLast? wrong))
  have enough : front.length < zoneEntries + 1 := by
    rw [List.length_append] at small
    omega
  have cut : zone.dropLink record id (zoneEntries + 1) 0 =
      cutLink zone record id (front.getLast?.getD 0) :=
    dropLink_eq zone enough path used notFront
  have recordOf : ∀ other, (zone.dropEntry record id).record other =
      (cutLink zone record id (front.getLast?.getD 0)).record other := by
    intro other
    unfold Tables.dropEntry
    rw [cut]
    rfl
  have siblingOf : ∀ node, ((zone.dropEntry record id).entry node).sibling =
      ((cutLink zone record id (front.getLast?.getD 0)).entry node).sibling := by
    intro node
    unfold Tables.dropEntry
    rw [cut]
    show ((Tables.setEntry _ id _).entry node).sibling = _
    rw [setEntry_entry]
    by_cases same : node = id
    · rw [if_pos same, same]
    · rw [if_neg same]
  have siblingKept : ∀ node, front.getLast? ≠ some node ->
      ((zone.dropEntry record id).entry node).sibling = (zone.entry node).sibling := by
    intro node notLast
    rw [siblingOf, cutLink_entry, if_neg (fun both => notLast ((some_iff_stored zeroLast).mpr both))]
  have only : ∀ other, id ∈ chain other -> other = record :=
    fun other inOther => chained.apart other record id inOther listed
  constructor
  case path =>
    intro other
    rw [recordOf, cutLink_record]
    by_cases same : other = record
    · subst same
      rw [if_pos rfl, Function.update_self, shape, erased]
      refine path.bypass ?_ ?_ ?_ rest
      · simp only [none_iff_stored zeroLast, List.getLast?_eq_none_iff, List.isEmpty_iff]
      · intro last isLast
        show ((zone.dropEntry other id).entry last).sibling = (zone.entry id).sibling
        rw [siblingOf, cutLink_entry, if_pos ((some_iff_stored zeroLast).mp isLast)]
      · intro node _ notLast
        exact siblingKept node notLast
    · rw [if_neg same, Function.update_of_ne same]
      refine (chained.path other).frame ?_
      intro node inOther
      refine siblingKept node ?_
      intro isLast
      refine same (chained.apart other record node inOther ?_)
      rw [shape]
      exact List.mem_append_left _ (List.mem_of_getLast? isLast)
  case count =>
    intro other
    rw [recordOf, cutLink_record]
    by_cases same : other = record
    · subst same
      rw [if_pos rfl, Function.update_self, List.length_erase_of_mem listed, chained.count]
    · rw [if_neg same, Function.update_of_ne same]
      exact chained.count other
  case nodup =>
    exact nodup_updated chained.nodup ((chained.nodup record).erase id)
  case nonzero =>
    intro other inOther
    exact chained.nonzero other ((mem_erased (chained.nodup record) only).mp inOther).1
  case apart =>
    intro first second node inFirst inSecond
    exact chained.apart first second node ((mem_erased (chained.nodup record) only).mp inFirst).1
      ((mem_erased (chained.nodup record) only).mp inSecond).1

theorem chainEntry {seq mm uaddr bitset index : Nat} (chained : Chained zone chain)
    (nonzero : id ≠ 0) (fresh : ∀ other, id ∉ chain other) :
    Chained (zone.chainEntry id record seq mm uaddr bitset index)
      (Function.update chain record (id :: chain record)) := by
  have recordOf : ∀ other,
      (zone.chainEntry id record seq mm uaddr bitset index).record other =
        if other = record then
          { zone.record record with
            firstEntry := id, entryCount := (zone.record record).entryCount + 1 }
        else zone.record other := fun other => setRecord_record _ _
  have entryOf : ∀ node,
      (zone.chainEntry id record seq mm uaddr bitset index).entry node =
        if node = id then
          { zone.entry id with
            record := record, seq := seq, mm := mm, uaddr := uaddr, bitset := bitset,
            index := index, sibling := (zone.record record).firstEntry }
        else zone.entry node := fun node => setEntry_entry _ _
  have notIn : ∀ {other node}, node ∈ chain other -> node ≠ id :=
    fun listed wrong => fresh _ (wrong ▸ listed)
  have kept : ∀ other, Path (fun node =>
      ((zone.chainEntry id record seq mm uaddr bitset index).entry node).sibling)
        (zone.record other).firstEntry (chain other) 0 := by
    intro other
    refine (chained.path other).frame ?_
    intro node listed
    rw [entryOf, if_neg (notIn listed)]
  constructor
  case path =>
    intro other
    rw [recordOf]
    by_cases same : other = record
    · subst same
      rw [if_pos rfl, Function.update_self]
      refine ⟨rfl, ?_⟩
      show Path _ ((zone.chainEntry id other seq mm uaddr bitset index).entry id).sibling _ 0
      rw [entryOf, if_pos rfl]
      exact kept other
    · rw [if_neg same, Function.update_of_ne same]
      exact kept other
  case count =>
    intro other
    rw [recordOf]
    by_cases same : other = record
    · subst same
      rw [if_pos rfl, Function.update_self, List.length_cons, chained.count]
    · rw [if_neg same, Function.update_of_ne same]
      exact chained.count other
  case nodup =>
    exact nodup_updated chained.nodup (List.nodup_cons.mpr ⟨fresh record, chained.nodup record⟩)
  case nonzero =>
    intro other listed
    rcases mem_pushed.mp listed with old | ⟨_, new⟩
    · exact chained.nonzero other old
    · exact nonzero new.symm
  case apart =>
    exact fun first second node => apart_extended notIn chained.apart mem_pushed

end Chained

end Zone
end Carrick
