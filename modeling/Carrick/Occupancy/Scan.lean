import Carrick.Occupancy.Table
import Mathlib.Data.Fintype.Basic

namespace Carrick
namespace Occupancy

open Foundation

/-!
# Scans of the table

A scan looks only at slots whose hint bit it finds set.  A vacater clears the
bit after it released the word, and sets it again when it finds the word taken
by then; between the two a published word has no bit, and a scan that reads the
hint word there misses it.  Outside that window a published word is announced
all the time: the bit is set, or some vacater is about to set it.
-/

/-! ## Hint bits -/

theorem hintBit_getLsbD (slot : ExecutionSlot) (bit : Nat) :
    (hintBit slot).getLsbD bit = decide (bit = slot.val % 64) := by
  have small : slot.val % 64 < 64 := Nat.mod_lt _ (by decide)
  unfold hintBit
  rw [BitVec.getLsbD_shiftLeft]
  by_cases same : bit = slot.val % 64
  · simp [same, small]
  · rcases Nat.lt_or_gt_of_ne same with below | above
    · simp [same, below]
    · have later : bit - slot.val % 64 ≠ 0 := by omega
      simp [same, later]

theorem slot_eq_of_hint {first second : ExecutionSlot} (word : hintWord first = hintWord second)
    (bit : first.val % 64 = second.val % 64) : first = second := by
  have same : first.val / 64 = second.val / 64 := congrArg Fin.val word
  refine Fin.ext ?_
  omega

namespace Table

theorem setHint_hinted (table : Table) (slot : ExecutionSlot) :
    (table.setHint slot).hinted slot = true := by
  have small : slot.val % 64 < 64 := Nat.mod_lt _ (by decide)
  unfold hinted
  rw [setHint_occupied, Function.update_self, BitVec.getLsbD_or, hintBit_getLsbD slot]
  simp

theorem hinted_setHint {table : Table} {slot : ExecutionSlot} (hinted : table.hinted slot = true)
    (other : ExecutionSlot) : (table.setHint other).hinted slot = true := by
  unfold Table.hinted at *
  rw [setHint_occupied]
  by_cases same : hintWord slot = hintWord other
  · rw [same] at hinted ⊢
    rw [Function.update_self, BitVec.getLsbD_or, hinted, Bool.true_or]
  · rw [Function.update_of_ne same]
    exact hinted

theorem hinted_clearHint {table : Table} {slot other : ExecutionSlot}
    (hinted : table.hinted slot = true) (different : slot ≠ other) :
    (table.clearHint other).hinted slot = true := by
  have small : slot.val % 64 < 64 := Nat.mod_lt _ (by decide)
  unfold Table.hinted at *
  rw [clearHint_occupied]
  by_cases same : hintWord slot = hintWord other
  · have bits : slot.val % 64 ≠ other.val % 64 := fun bit => different (slot_eq_of_hint same bit)
    rw [same] at hinted ⊢
    rw [Function.update_self, BitVec.getLsbD_and, hinted, BitVec.getLsbD_not,
      hintBit_getLsbD other]
    simp [small, bits]
  · rw [Function.update_of_ne same]
    exact hinted

end Table

theorem Call.enter_hinted (call : Call) (table : Table) (slot : ExecutionSlot) :
    (call.enter table).1.hinted slot = table.hinted slot := by
  have same : (call.enter table).1.occupied = table.occupied := by
    cases call <;> unfold Call.enter <;> dsimp only [Table.store] <;> split <;> rfl
  unfold Table.hinted
  rw [same]

/-! ## Announced slots -/

/-- The thread has cleared the hint bit of the slot and is not done checking
the word again. -/
def Stage.inWindow (slot : ExecutionSlot) : Stage -> Bool
  | rechecking other _ => decide (other = slot)
  | restoring other _ => decide (other = slot)
  | _ => false

variable {stage : Stage} {slot : ExecutionSlot}

theorem Stage.inWindow_of_resting (resting : stage.resting = true) :
    stage.inWindow slot = false := by
  cases stage with
  | idle => rfl
  | returned answer => rfl
  | _ => cases resting

variable {table : Table}

theorem Stage.advance_hinted (hinted : table.hinted slot = true) (stage : Stage) :
    (stage.advance table).1.hinted slot = true ∨
      (stage.advance table).2.inWindow slot = true := by
  cases stage with
  | idle => exact .inl hinted
  | entered call => exact .inl ((call.enter_hinted table slot).trans hinted)
  | marking other answer => exact .inl (Table.hinted_setHint hinted other)
  | clearing other answer =>
    by_cases same : slot = other
    · exact .inr (decide_eq_true same.symm)
    · exact .inl (Table.hinted_clearHint hinted same)
  | rechecking other answer =>
    dsimp only [Stage.advance]
    split <;> exact .inl hinted
  | restoring other answer => exact .inl (Table.hinted_setHint hinted other)
  | loading space word slots =>
    dsimp only [Stage.advance]
    split <;> exact .inl hinted
  | visiting space word bits slots =>
    dsimp only [Stage.advance]
    split <;> exact .inl hinted
  | returned answer => exact .inl hinted

/-- A thread leaves the window of a taken slot by setting its hint bit. -/
theorem Stage.advance_inWindow (inWindow : stage.inWindow slot = true)
    (taken : table.running slot ≠ 0) :
    (stage.advance table).1.hinted slot = true ∨
      (stage.advance table).2.inWindow slot = true := by
  cases stage with
  | rechecking other answer =>
    have same : other = slot := of_decide_eq_true inWindow
    subst same
    dsimp only [Stage.advance]
    rw [if_pos taken]
    exact .inr (decide_eq_true rfl)
  | restoring other answer =>
    have same : other = slot := of_decide_eq_true inWindow
    subst same
    exact .inl (table.setHint_hinted other)
  | _ => cases inWindow

variable {Thread : Type} [DecidableEq Thread]

namespace System

/-- The hint bit is set, or a thread in the window is about to set it. -/
def Announced (system : System Thread) (slot : ExecutionSlot) : Prop :=
  system.table.hinted slot = true ∨ ∃ thread, (system.stages thread).inWindow slot = true

theorem Announced.step {system : System Thread} {slot : ExecutionSlot}
    (announced : system.Announced slot) (taken : system.table.running slot ≠ 0)
    (event : Event Thread) : (system.step event).Announced slot := by
  cases event with
  | call thread call =>
    rcases announced with hinted | ⟨other, inWindow⟩
    · refine .inl ?_
      rw [step_call_table]
      exact hinted
    refine .inr ⟨other, ?_⟩
    rcases system.step_call_cases thread other call with same | ⟨resting, _⟩
    · rw [same]
      exact inWindow
    · rw [Stage.inWindow_of_resting resting] at inWindow
      cases inWindow
  | access thread =>
    have moved : ((system.stages thread).advance system.table).1.hinted slot = true ∨
        ((system.stages thread).advance system.table).2.inWindow slot = true ->
        (system.step (.access thread)).Announced slot := by
      rintro (hinted | inWindow)
      · exact .inl hinted
      · refine .inr ⟨thread, ?_⟩
        rw [step_access_self]
        exact inWindow
    rcases announced with hinted | ⟨other, inWindow⟩
    · exact moved (Stage.advance_hinted hinted _)
    by_cases same : other = thread
    · subst same
      exact moved (Stage.advance_inWindow inWindow taken)
    · refine .inr ⟨other, ?_⟩
      rw [step_access_of_ne _ same]
      exact inWindow

end System

/-! ## What a scan has seen -/

/-- A finished scan for the space has visited the slot. -/
def Answer.Sees (slot : ExecutionSlot) (space : AddressSpaceKey) : Answer -> Prop
  | visited other slots => other = space -> slot ∈ slots
  | _ => True

/-- A scan for the space has not passed the slot yet, or has visited it. -/
def Stage.Sees (slot : ExecutionSlot) (space : AddressSpaceKey) : Stage -> Prop
  | loading other word slots =>
    other = space -> word <= (hintWord slot).val ∨ slot ∈ slots
  | visiting other word bits slots =>
    other = space -> word.val < (hintWord slot).val ∨
      word = hintWord slot ∧ bits.getLsbD (slot.val % 64) = true ∨ slot ∈ slots
  | marking _ answer => answer.Sees slot space
  | clearing _ answer => answer.Sees slot space
  | rechecking _ answer => answer.Sees slot space
  | restoring _ answer => answer.Sees slot space
  | returned answer => answer.Sees slot space
  | _ => True

/-- The next access loads the hint word of the slot. -/
def Stage.readsHint (slot : ExecutionSlot) : Stage -> Bool
  | loading _ word _ => decide (word = (hintWord slot).val)
  | _ => false

theorem Call.enter_sees (call : Call) (table : Table) (slot : ExecutionSlot)
    (space : AddressSpaceKey) : (call.enter table).2.Sees slot space := by
  cases call with
  | forEachRunning other => exact fun _ => .inl (Nat.zero_le _)
  | _ =>
    unfold Call.enter
    dsimp only
    repeat' split
    all_goals trivial

theorem slotAt_hintWord {bit : Nat} (inside : bit < 64) (same : slot.val % 64 = bit) :
    slotAt (hintWord slot) bit inside = slot := by
  refine Fin.ext ?_
  change slot.val / 64 * 64 + bit = slot.val
  omega

/-- A scan that finds the hint bit set does not pass a slot of its space. -/
theorem Stage.advance_sees {space : AddressSpaceKey} (sees : stage.Sees slot space)
    (runs : table.running slot = space.raw)
    (hinted : stage.readsHint slot = true -> table.hinted slot = true) :
    (stage.advance table).2.Sees slot space := by
  cases stage with
  | idle => trivial
  | entered call => exact call.enter_sees table slot space
  | marking other answer => exact sees
  | clearing other answer => exact sees
  | rechecking other answer =>
    dsimp only [Stage.advance]
    split <;> exact sees
  | restoring other answer => exact sees
  | loading other word slots =>
    dsimp only [Stage.advance]
    split
    · rename_i inside
      intro same
      rcases sees same with before | visited
      · rcases Nat.lt_or_eq_of_le before with earlier | here
        · exact .inl earlier
        · have word_eq : (⟨word, inside⟩ : Fin occupiedWords) = hintWord slot := Fin.ext here
          refine .inr (.inl ⟨word_eq, ?_⟩)
          rw [word_eq]
          exact hinted (decide_eq_true here)
      · exact .inr (.inr visited)
    · rename_i beyond
      intro same
      rcases sees same with before | visited
      · exact absurd (Nat.lt_of_le_of_lt before (hintWord slot).isLt) beyond
      · exact visited
  | visiting other word bits slots =>
    dsimp only [Stage.advance]
    split
    · rename_i nonzero
      intro same
      rcases sees same with earlier | ⟨here, set⟩ | visited
      · exact .inl earlier
      · rcases getLsbD_clearLowest set with lowest | kept
        · refine .inr (.inr ?_)
          have found : slotAt word bits.ctz.toNat (ctz_toNat_lt nonzero) = slot := by
            rw [here]
            exact slotAt_hintWord _ lowest
          rw [found, same, if_pos runs]
          exact List.mem_append_right _ List.mem_cons_self
        · exact .inr (.inl ⟨here, kept⟩)
      · refine .inr (.inr ?_)
        split
        · exact List.mem_append_left _ visited
        · exact visited
    · rename_i zero
      intro same
      rcases sees same with earlier | ⟨here, set⟩ | visited
      · exact .inl earlier
      · have empty : bits = 0 := not_not.mp zero
        rw [empty] at set
        simp at set
      · exact .inr visited
  | returned answer => exact sees

/-! ## A scan after a publication -/

namespace System

/-- The step is not the load of the slot's hint word while a vacater of that
slot is in the window. -/
def spares (slot : ExecutionSlot) (system : System Thread) : Event Thread -> Prop
  | .access thread => (system.stages thread).readsHint slot = true ->
      ∀ vacater, (system.stages vacater).inWindow slot = false
  | .call _ _ => True

/-- Every state of the run has the space on the slot. -/
def Keeps (slot : ExecutionSlot) (space : AddressSpaceKey) (system : System Thread) :
    List (Event Thread) -> Prop
  | [] => system.table.running slot = space.raw
  | event :: rest => system.table.running slot = space.raw ∧ Keeps slot space (system.step event) rest

/-- Every step of the run spares the slot's window. -/
def AllSpare (slot : ExecutionSlot) (system : System Thread) : List (Event Thread) -> Prop
  | [] => True
  | event :: rest => system.spares slot event ∧ AllSpare slot (system.step event) rest

instance instDecidableKeeps (slot : ExecutionSlot) (space : AddressSpaceKey) :
    (system : System Thread) -> (events : List (Event Thread)) ->
      Decidable (system.Keeps slot space events)
  | system, [] => inferInstanceAs (Decidable (system.table.running slot = space.raw))
  | system, event :: rest =>
    have := instDecidableKeeps slot space (system.step event) rest
    inferInstanceAs (Decidable (_ ∧ _))

instance [Fintype Thread] (slot : ExecutionSlot) (system : System Thread) :
    (event : Event Thread) -> Decidable (system.spares slot event)
  | .access _ => inferInstanceAs (Decidable (_ -> _))
  | .call _ _ => inferInstanceAs (Decidable True)

instance instDecidableAllSpare [Fintype Thread] (slot : ExecutionSlot) :
    (system : System Thread) -> (events : List (Event Thread)) ->
      Decidable (system.AllSpare slot events)
  | _, [] => inferInstanceAs (Decidable True)
  | system, event :: rest =>
    have := instDecidableAllSpare slot (system.step event) rest
    inferInstanceAs (Decidable (_ ∧ _))

variable {space : AddressSpaceKey} {system : System Thread}
  {events : List (Event Thread)}

theorem Keeps.here (keeps : system.Keeps slot space events) :
    system.table.running slot = space.raw := by
  cases events with
  | nil => exact keeps
  | cons event rest => exact keeps.1

/-- While the slot is announced and a thread sees it, a step keeps it seen. -/
theorem sees_step {scanner : Thread} (sees : (system.stages scanner).Sees slot space)
    (announced : system.Announced slot) (runs : system.table.running slot = space.raw)
    {event : Event Thread} (spares : system.spares slot event) :
    ((system.step event).stages scanner).Sees slot space := by
  cases event with
  | call thread call =>
    rcases system.step_call_cases thread scanner call with same | ⟨_, entered⟩
    · rw [same]
      exact sees
    · rw [entered]
      trivial
  | access thread =>
    by_cases same : scanner = thread
    · subst same
      rw [step_access_self]
      refine Stage.advance_sees sees runs (fun reads => ?_)
      rcases announced with hinted | ⟨vacater, inWindow⟩
      · exact hinted
      · rw [spares reads vacater] at inWindow
        cases inWindow
    · rw [step_access_of_ne _ same]
      exact sees

/-- The run lemma: a slot announced at its start is announced and seen at its end. -/
theorem sees_run {scanner : Thread} (announced : system.Announced slot)
    (keeps : system.Keeps slot space events) (spares : system.AllSpare slot events)
    (sees : (system.stages scanner).Sees slot space) :
    ((system.run events).stages scanner).Sees slot space := by
  induction events generalizing system with
  | nil => exact sees
  | cons event rest ih =>
    have taken : system.table.running slot ≠ 0 := by
      rw [keeps.1]
      exact space.nonzero
    exact ih (announced.step taken event) keeps.2 spares.2
      (sees_step sees announced keeps.1 spares.1)

theorem announced_run (announced : system.Announced slot) (keeps : system.Keeps slot space events) :
    (system.run events).Announced slot := by
  induction events generalizing system with
  | nil => exact announced
  | cons event rest ih =>
    have taken : system.table.running slot ≠ 0 := by
      rw [keeps.1]
      exact space.nonzero
    exact ih (announced.step taken event) keeps.2

theorem keeps_append {earlier later : List (Event Thread)}
    (keeps : system.Keeps slot space (earlier ++ later)) :
    system.Keeps slot space earlier ∧ (system.run earlier).Keeps slot space later := by
  induction earlier generalizing system with
  | nil => exact ⟨Keeps.here keeps, keeps⟩
  | cons event rest ih =>
    rcases ih keeps.2 with ⟨first, second⟩
    exact ⟨⟨keeps.1, first⟩, second⟩

theorem allSpare_append {earlier later : List (Event Thread)}
    (spares : system.AllSpare slot (earlier ++ later)) :
    (system.run earlier).AllSpare slot later := by
  induction earlier generalizing system with
  | nil => exact spares
  | cons event rest ih => exact ih spares.2

/-- A thread is about to end its install or replace on the slot, and some time
after it returned a scan for the space starts and ends; from the return to the
end of the scan the slot's word is the space. -/
structure ScanAfter (system : System Thread) (slot : ExecutionSlot) (space : AddressSpaceKey)
    (publisher scanner : Thread) (earlier later : List (Event Thread))
    (slots : List ExecutionSlot) : Prop where
  publishing : ∃ answer, system.stages publisher = .marking slot answer
  keeps : (system.step (.access publisher)).Keeps slot space
    (earlier ++ .call scanner (.forEachRunning space) :: later)
  ready : (((system.step (.access publisher)).run earlier).stages scanner).resting = true
  ended : ((system.step (.access publisher)).run
    (earlier ++ .call scanner (.forEachRunning space) :: later)).stages scanner =
      .returned (.visited space slots)

theorem announced_of_marking {publisher : Thread} {answer : Answer}
    (publishing : system.stages publisher = .marking slot answer) :
    (system.step (.access publisher)).Announced slot := by
  refine .inl ?_
  rw [step_access_table, publishing]
  exact system.table.setHint_hinted slot

/-- In every run whose steps spare the window of the slot, a scan after the
publication visits the slot. -/
theorem scan_visits_published_slot {system : System Thread} {slot : ExecutionSlot}
    {space : AddressSpaceKey} {publisher scanner : Thread} {earlier later : List (Event Thread)}
    {slots : List ExecutionSlot}
    (scan : system.ScanAfter slot space publisher scanner earlier later slots)
    (spares : (system.step (.access publisher)).AllSpare slot
      (earlier ++ .call scanner (.forEachRunning space) :: later)) : slot ∈ slots := by
  rcases scan.publishing with ⟨answer, publishing⟩
  have announced := announced_of_marking publishing
  rcases keeps_append scan.keeps with ⟨keepsEarlier, keepsScan⟩
  have announcedScan := announced_run announced keepsEarlier
  have sparesLater := (allSpare_append spares).2
  have taken : ((system.step (.access publisher)).run earlier).table.running slot ≠ 0 := by
    rw [keepsScan.1]
    exact space.nonzero
  have started : ((((system.step (.access publisher)).run earlier).step
      (.call scanner (.forEachRunning space))).stages scanner).Sees slot space := by
    rw [step_call_self scan.ready]
    trivial
  have sees := sees_run (announcedScan.step taken _) keepsScan.2 sparesLater started
  have ended := scan.ended
  rw [run_append, run_cons] at ended
  rw [ended] at sees
  exact sees rfl

/-! ## A scan inside the window -/

def firstSlot : ExecutionSlot := ⟨0, by decide⟩

/-- The key of the previous occupant of the slot, and of the next one. -/
def oldSpace : AddressSpaceKey := ⟨5, by decide⟩

def newSpace : AddressSpaceKey := ⟨7, by decide⟩

/-- Thread 0 vacates the slot and has not yet cleared its hint bit, and thread 1
has published the next address space there. -/
def handover : List (Event (Fin 3)) :=
  [.call 0 (.install firstSlot oldSpace), .access 0, .access 0,
    .call 0 (.vacate firstSlot oldSpace), .access 0,
    .call 1 (.install firstSlot newSpace), .access 1]

/-- Thread 0 clears the bit after the install returned, and the scan of thread 2
reads the hint word before it is set again. -/
theorem scan_in_window_misses_slot :
    (System.start.run handover).ScanAfter firstSlot newSpace 1 2 [.access 0]
      (List.replicate 18 (.access 2)) [] ∧ firstSlot ∉ ([] : List ExecutionSlot) := by
  refine ⟨⟨⟨.installed, ?_⟩, ?_, ?_, ?_⟩, by decide⟩
  · decide +kernel
  · decide +kernel
  · decide +kernel
  · decide +kernel

/-- The same scan before thread 0 clears the bit. -/
theorem scan_before_window_visits_slot :
    (System.start.run handover).ScanAfter firstSlot newSpace 1 2 []
      (List.replicate 19 (.access 2)) [firstSlot] ∧ firstSlot ∈ [firstSlot] := by
  have scan : (System.start.run handover).ScanAfter firstSlot newSpace 1 2 []
      (List.replicate 19 (.access 2)) [firstSlot] := by
    refine ⟨⟨.installed, ?_⟩, ?_, ?_, ?_⟩
    · decide +kernel
    · decide +kernel
    · decide +kernel
    · decide +kernel
  exact ⟨scan, scan_visits_published_slot scan (by decide +kernel)⟩

end System

end Occupancy
end Carrick
