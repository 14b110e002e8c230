import Carrick.FdCore.Authority
import Carrick.FdCore.Holds

namespace Carrick
namespace FdCore

open Foundation

/-!
# Taking references and giving them back

An operation that takes several references and then fails gives them back
through the releasing path.  The store that lends the references is the store
before with the words of the records raised; a reference given back to it is
never the last one, so the way back ends at the store before.
-/

/-- The record with so many references more. -/
def OfdRecord.raised (record : OfdRecord) (count : Nat) : OfdRecord :=
  { record with holds := record.holds + refUnit * count }

/-- The store with one more reference for each index of the list. -/
def OfdStore.lending (store : OfdStore) (taken : List Nat) : OfdStore :=
  { store with
    records := store.records.mapIdx (fun index record => record.raised (taken.count index)) }

/-- Every index of the list is held. -/
def Held (store : OfdStore) (taken : List Nat) : Prop :=
  ∀ index ∈ taken,
    ∃ record, store.records[index]? = some record ∧ record.holds ≠ 0

section Lending

variable {store : OfdStore} {index : Nat} {record : OfdRecord} {taken : List Nat}

theorem raised_eq (record : OfdRecord) (count : Nat) :
    record.raised count = ⟨record.generation, (record.raised count).holds, record.description⟩ :=
  rfl

theorem raised_generation (record : OfdRecord) (count : Nat) :
    (record.raised count).generation = record.generation :=
  rfl

theorem raised_description (record : OfdRecord) (count : Nat) :
    (record.raised count).description = record.description :=
  rfl

theorem lending_nil (store : OfdStore) : store.lending [] = store := by
  unfold OfdStore.lending
  have same : store.records.mapIdx (fun index record => record.raised (([] : List Nat).count index)) =
      store.records := by
    refine List.ext_getElem? ?_
    intro index
    rw [List.getElem?_mapIdx]
    cases store.records[index]? with
    | none => rfl
    | some record => rfl
  rw [same]

theorem lending_perm {first second : List Nat} (same : first.Perm second) :
    store.lending first = store.lending second := by
  unfold OfdStore.lending
  have counts : ∀ index, first.count index = second.count index := fun index =>
    same.count_eq index
  simp only [counts]

theorem lending_record (there : store.records[index]? = some record) (taken : List Nat) :
    (store.lending taken).records[index]? = some (record.raised (taken.count index)) := by
  unfold OfdStore.lending
  simp only
  rw [List.getElem?_mapIdx, there, Option.map_some]

theorem lending_put (there : store.records[index]? = some record) (taken : List Nat) :
    (store.lending taken).put index (record.raised (taken.count index + 1)) =
      store.lending (index :: taken) := by
  unfold OfdStore.put OfdStore.lending
  simp only [OfdStore.mk.injEq, and_self, and_true]
  refine List.ext_getElem? ?_
  intro other
  rw [List.getElem?_set, List.getElem?_mapIdx, List.getElem?_mapIdx, List.length_mapIdx,
    List.count_cons]
  by_cases same : index = other
  · subst same
    rw [if_pos rfl, if_pos (List.getElem?_eq_some_iff.mp there).1, there]
    simp
  · rw [if_neg same]
    simp [same]

theorem lending_unput (there : store.records[index]? = some record) (taken : List Nat) :
    (store.lending (index :: taken)).put index (record.raised (taken.count index)) =
      store.lending taken := by
  rw [<- lending_put there]
  unfold OfdStore.put
  simp only [List.set_set]
  have same : (store.lending taken).records.set index (record.raised (taken.count index)) =
      (store.lending taken).records := by
    refine List.ext_getElem? ?_
    intro other
    rw [List.getElem?_set]
    split_ifs with self inside
    · rw [<- self, lending_record there]
    · rw [List.getElem?_eq_none (by omega)]
    · rfl
  rw [same]

theorem raised_succ (record : OfdRecord) (count : Nat) :
    (record.raised count).holds + refUnit = (record.raised (count + 1)).holds := by
  unfold OfdRecord.raised
  simp only
  rw [Nat.mul_add, Nat.mul_one]
  omega

theorem retain_lending (taken : List Nat) (there : store.records[index]? = some record) :
    OfdStore.retain index .ref (store.lending taken) =
        (.ok (), store.lending (index :: taken)) ∨
      OfdStore.retain index .ref (store.lending taken) = (.error .noMemory, store.lending taken) := by
  rw [retain_eq (lending_record there taken)]
  split_ifs with room
  · refine .inl ?_
    rw [<- lending_put there]
    have word := raised_succ record (taken.count index)
    show (_, OfdStore.put _ _ ⟨_, (record.raised (taken.count index)).holds + refUnit, _⟩) = _
    rw [word]
    rfl
  · exact .inr rfl

theorem dropHold_lending (taken : List Nat) (there : store.records[index]? = some record)
    (held : record.holds ≠ 0) :
    OfdStore.dropHold index .ref (store.lending (index :: taken)) =
      (.ok none, store.lending taken) := by
  have counted : (index :: taken).count index = taken.count index + 1 := by simp
  have present := lending_record there (index :: taken)
  rw [counted] at present
  have word := raised_succ record (taken.count index)
  have positive := refUnit_pos
  have kept : record.holds <= (record.raised (taken.count index)).holds := Nat.le_add_right _ _
  have half : Hold.ref.half (record.raised (taken.count index + 1)).holds ≠ 0 := by
    show (record.raised (taken.count index + 1)).holds / refUnit ≠ 0
    rw [<- word, Nat.add_div_right _ positive]
    exact Nat.succ_ne_zero _
  have more : (record.raised (taken.count index + 1)).holds ≠ Hold.ref.amount := by
    show (record.raised (taken.count index + 1)).holds ≠ refUnit
    omega
  rw [dropHold_eq present half, if_pos more, <- lending_unput there taken]
  have rest : (record.raised (taken.count index + 1)).holds - refUnit =
      (record.raised (taken.count index)).holds := by omega
  have amount : Hold.ref.amount = refUnit := rfl
  rw [amount, rest, raised_generation, raised_description, <- raised_eq]

end Lending

/-! ## Copying the slots of a table -/

/-- The descriptions that the slots name, one for each slot. -/
def namedIn (slots : List DescriptorSlot) : List Nat :=
  slots.filterMap (fun slot => slot.entry.map Entry.ofd)

/-- The slots without their claims. -/
def copies (slots : List DescriptorSlot) : List DescriptorSlot :=
  slots.map (fun slot => { entry := slot.entry, reserved := false })

def Counts.addRefs (counts : Counts) (taken : List Nat) : Counts :=
  { counts with refs := fun index => counts.refs index + taken.count index }

theorem Counts.addRefs_cons (counts : Counts) (index : Nat) (taken : List Nat) :
    counts.addRefs (index :: taken) = (counts.addRefs taken).addRef index := by
  refine Counts.ext ?_ rfl
  intro other
  show counts.refs other + (index :: taken).count other =
    counts.refs other + taken.count other + if other = index then 1 else 0
  rw [List.count_cons]
  by_cases same : index = other
  · simp [same, Nat.add_assoc]
  · simp [same, Ne.symm same]

theorem Counts.addRefs_perm (counts : Counts) {first second : List Nat} (same : first.Perm second) :
    counts.addRefs first = counts.addRefs second := by
  refine Counts.ext ?_ rfl
  intro other
  show counts.refs other + _ = counts.refs other + _
  rw [same.count_eq]

theorem namedIn_vacant {slot : DescriptorSlot} (named : slot.entry = none)
    (rest : List DescriptorSlot) : namedIn (slot :: rest) = namedIn rest := by
  unfold namedIn
  rw [List.filterMap_cons, named]
  rfl

theorem namedIn_open {slot : DescriptorSlot} {entry : Entry} (named : slot.entry = some entry)
    (rest : List DescriptorSlot) : namedIn (slot :: rest) = entry.ofd :: namedIn rest := by
  unfold namedIn
  rw [List.filterMap_cons, named]
  rfl

section Copying

variable {store : OfdStore} {counts : Counts} {ledger : Ledger}

theorem Held.tail {index : Nat} {taken : List Nat} (held : Held store (index :: taken)) :
    Held store taken :=
  fun other listed => held other (List.mem_cons_of_mem _ listed)

theorem undoRetains_lending : ∀ {prior : List Entry}, Held store (prior.map Entry.ofd) ->
    Custody.undoRetains prior (store.lending (prior.map Entry.ofd)) = (.ok (), store) := by
  intro prior
  induction prior with
  | nil =>
    intro _
    unfold Custody.undoRetains
    rw [List.map_nil, lending_nil, Command.pure_apply]
  | cons entry rest ih =>
    intro held
    rcases held entry.ofd (by simp) with ⟨record, there, nonzero⟩
    unfold Custody.undoRetains
    rw [List.map_cons, Command.attempt_bind_apply, dropHold_lending _ there nonzero]
    exact ih held.tail

/-- Every description is retained and the slots copied, or the retains are
undone. -/
theorem retainSlots_lending (counts : Counts) (ledger : Ledger) :
    ∀ (slots : List DescriptorSlot) (prior : List Entry),
    Held store (namedIn slots ++ prior.map Entry.ofd) ->
    Books (store.lending (prior.map Entry.ofd)) (counts.addRefs (prior.map Entry.ofd)) ledger ->
    (Custody.retainSlots prior slots (store.lending (prior.map Entry.ofd)) =
        (.ok (copies slots), store.lending (namedIn slots ++ prior.map Entry.ofd)) ∧
      Books (store.lending (namedIn slots ++ prior.map Entry.ofd))
        (counts.addRefs (namedIn slots ++ prior.map Entry.ofd)) ledger) ∨
      ∃ reason, Custody.retainSlots prior slots (store.lending (prior.map Entry.ofd)) =
        (.error reason, store) := by
  intro slots
  induction slots with
  | nil =>
    intro prior _ books
    exact .inl ⟨rfl, books⟩
  | cons slot rest ih =>
    intro prior held books
    unfold Custody.retainSlots
    cases named : slot.entry with
    | none =>
      rw [namedIn_vacant named] at held ⊢
      simp only
      rcases ih _ held books with ⟨ran, after⟩ | ⟨reason, ran⟩
      · refine .inl ⟨?_, after⟩
        rw [Command.bind_of_ok ran, Command.pure_apply]
        unfold copies
        rw [List.map_cons, named]
        rfl
      · exact .inr ⟨reason, Command.bind_of_error ran⟩
    | some entry =>
      have moved : (entry.ofd :: namedIn rest ++ prior.map Entry.ofd).Perm
          (namedIn rest ++ (prior ++ [entry]).map Entry.ofd) := by
        rw [List.map_append, List.map_singleton, <- List.append_assoc]
        exact (List.perm_append_singleton _ _).symm
      have lent : (prior ++ [entry]).map Entry.ofd =
          prior.map Entry.ofd ++ [entry.ofd] := List.map_append
      have last : (entry.ofd :: prior.map Entry.ofd).Perm
          ((prior ++ [entry]).map Entry.ofd) := by
        rw [lent]
        exact (List.perm_append_singleton _ _).symm
      rw [namedIn_open named] at held ⊢
      rcases held entry.ofd (by simp) with ⟨record, there, nonzero⟩
      simp only
      rw [Command.attempt_bind_apply]
      rcases retain_lending _ there with ran | ran
      · rcases retain_spec books .ref (lending_record there _) with
          ⟨after, kept, _, more⟩ | refused
        · rw [ran, Prod.mk.injEq] at kept
          rw [<- kept.2] at more
          have grown : Books (store.lending ((prior ++ [entry]).map Entry.ofd))
              (counts.addRefs ((prior ++ [entry]).map Entry.ofd)) ledger := by
            rw [<- lending_perm last, <- Counts.addRefs_perm counts last, Counts.addRefs_cons]
            exact more
          rw [ran, lending_perm moved, Counts.addRefs_perm counts moved]
          simp only
          rw [lending_perm last]
          have heldAfter : Held store (namedIn rest ++ (prior ++ [entry]).map Entry.ofd) :=
            fun index listed => held index (moved.mem_iff.mpr listed)
          rcases ih _ heldAfter grown with ⟨copied, books⟩ | ⟨reason, failed⟩
          · refine .inl ⟨?_, books⟩
            rw [Command.bind_of_ok copied, Command.pure_apply]
            unfold copies
            rw [List.map_cons, named]
          · exact .inr ⟨reason, Command.bind_of_error failed⟩
        · rw [ran] at refused
          cases refused
      · refine .inr ⟨.noMemory, ?_⟩
        rw [ran]
        simp only
        have priorHeld : Held store (prior.map Entry.ofd) := fun index listed =>
          held index (List.mem_append_right _ listed)
        rw [Command.bind_of_ok (undoRetains_lending priorHeld), Command.refuse_apply]

theorem retainSlots_cases {slots : List DescriptorSlot} (books : Books store counts ledger)
    (held : Held store (namedIn slots)) :
    (Custody.retainSlots [] slots store = (.ok (copies slots), store.lending (namedIn slots)) ∧
      Books (store.lending (namedIn slots)) (counts.addRefs (namedIn slots)) ledger) ∨
      ∃ reason, Custody.retainSlots [] slots store = (.error reason, store) := by
  have none : counts.addRefs [] = counts := Counts.ext (fun _ => rfl) rfl
  have copied : Held store (namedIn slots ++ ([] : List Entry).map Entry.ofd) -> _ :=
    retainSlots_lending counts ledger slots []
  rw [List.map_nil, List.append_nil, lending_nil, none] at copied
  exact copied held books

theorem dropSlots_lending : ∀ {slots : List DescriptorSlot}, Held store (namedIn slots) ->
    Custody.dropSlots slots (store.lending (namedIn slots)) = (.ok (), store) := by
  intro slots
  induction slots with
  | nil =>
    intro _
    unfold Custody.dropSlots namedIn
    rw [List.filterMap_nil, lending_nil, Command.pure_apply]
  | cons slot rest ih =>
    intro held
    unfold Custody.dropSlots
    cases named : slot.entry with
    | none =>
      rw [namedIn_vacant named] at held ⊢
      exact ih held
    | some entry =>
      rw [namedIn_open named] at held ⊢
      rcases held entry.ofd (by simp) with ⟨record, there, nonzero⟩
      simp only
      rw [Command.bind_of_ok (dropHold_lending _ there nonzero)]
      exact ih held.tail

end Copying

end FdCore
end Carrick
