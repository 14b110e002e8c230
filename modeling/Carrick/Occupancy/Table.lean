import Carrick.Foundation.BitScan
import Mathlib.Logic.Function.Basic

namespace Carrick
namespace Occupancy

open Foundation

/-!
# Which address space each vCPU runs

The table holds one word for each execution slot, the key of the address space
installed there, and one hint bit for each slot whose word is not zero.  A
call is a sequence of accesses to these two arrays; every access is sequentially
consistent, and between two of them any other thread may take its own.  A
stage says which access a thread makes next, so that a run of the system is a
list of calls and of single accesses.
-/

/-! ## Slots, keys and the table -/

def zoneSlots : Nat := 256

def hostExecutionSlots : Nat := 256

def executionSlots : Nat := zoneSlots + hostExecutionSlots

def occupiedWords : Nat := executionSlots / 64

abbrev ExecutionSlot := Fin executionSlots

/-- The key of an address space; no key is zero. -/
structure AddressSpaceKey where
  raw : BitVec 64
  nonzero : raw ≠ 0
  deriving DecidableEq

def AddressSpaceKey.fromRaw (raw : BitVec 64) : Option AddressSpaceKey :=
  if nonzero : raw ≠ 0 then some ⟨raw, nonzero⟩ else none

@[ext] structure Table where
  running : ExecutionSlot -> BitVec 64
  occupied : Fin occupiedWords -> BitVec 64

/-- The table of all-zero bytes. -/
def Table.new : Table := ⟨fun _ => 0, fun _ => 0⟩

def hintWord (slot : ExecutionSlot) : Fin occupiedWords :=
  ⟨slot.val / 64, by
    have inside := slot.isLt
    unfold executionSlots zoneSlots hostExecutionSlots at inside
    unfold occupiedWords executionSlots zoneSlots hostExecutionSlots
    omega⟩

/-- The bit of a slot in its hint word. -/
def hintBit (slot : ExecutionSlot) : BitVec 64 := 1#64 <<< (slot.val % 64)

/-- The slot of a bit of a hint word. -/
def slotAt (word : Fin occupiedWords) (bit : Nat) (inside : bit < 64) : ExecutionSlot :=
  ⟨word.val * 64 + bit, by
    have bound := word.isLt
    unfold occupiedWords executionSlots zoneSlots hostExecutionSlots at bound
    unfold executionSlots zoneSlots hostExecutionSlots
    omega⟩

namespace Table

def store (table : Table) (slot : ExecutionSlot) (value : BitVec 64) : Table :=
  { table with running := Function.update table.running slot value }

/-- `fetch_or` of the slot's hint bit. -/
def setHint (table : Table) (slot : ExecutionSlot) : Table :=
  { table with
    occupied := Function.update table.occupied (hintWord slot)
      (table.occupied (hintWord slot) ||| hintBit slot) }

/-- `fetch_and` of the complement of the slot's hint bit. -/
def clearHint (table : Table) (slot : ExecutionSlot) : Table :=
  { table with
    occupied := Function.update table.occupied (hintWord slot)
      (table.occupied (hintWord slot) &&& ~~~ hintBit slot) }

/-- The slot's hint bit as a scan sees it. -/
def hinted (table : Table) (slot : ExecutionSlot) : Bool :=
  (table.occupied (hintWord slot)).getLsbD (slot.val % 64)

@[simp] theorem setHint_occupied (table : Table) (slot : ExecutionSlot) :
    (table.setHint slot).occupied = Function.update table.occupied (hintWord slot)
      (table.occupied (hintWord slot) ||| hintBit slot) := rfl

@[simp] theorem clearHint_occupied (table : Table) (slot : ExecutionSlot) :
    (table.clearHint slot).occupied = Function.update table.occupied (hintWord slot)
      (table.occupied (hintWord slot) &&& ~~~ hintBit slot) := rfl

end Table

/-! ## Calls and their accesses -/

inductive Call where
  | install (slot : ExecutionSlot) (space : AddressSpaceKey)
  | switch (slot : ExecutionSlot) (old new : AddressSpaceKey)
  | replace (slot : ExecutionSlot) (old new : BitVec 64)
  | vacateAny (slot : ExecutionSlot)
  | vacate (slot : ExecutionSlot) (space : AddressSpaceKey)
  | forEachRunning (space : AddressSpaceKey)
  deriving DecidableEq

inductive Answer where
  | installed
  | busy (running : AddressSpaceKey)
  | switched (done : Bool)
  | replaced (done : Bool)
  | held (word : BitVec 64)
  | vacated (done : Bool)
  | visited (space : AddressSpaceKey) (slots : List ExecutionSlot)
  deriving DecidableEq

inductive Stage where
  | idle
  | entered (call : Call)
  /-- The word is published and its hint bit is set next. -/
  | marking (slot : ExecutionSlot) (answer : Answer)
  /-- The word is released and its hint bit is cleared next. -/
  | clearing (slot : ExecutionSlot) (answer : Answer)
  /-- The hint bit is cleared and the word is checked again next. -/
  | rechecking (slot : ExecutionSlot) (answer : Answer)
  /-- The word was found taken again and the hint bit is set next. -/
  | restoring (slot : ExecutionSlot) (answer : Answer)
  /-- A scan loads the hint word next, or ends behind the last one. -/
  | loading (space : AddressSpaceKey) (word : Nat) (slots : List ExecutionSlot)
  /-- A scan looks at the slot of the lowest bit left of a hint word. -/
  | visiting (space : AddressSpaceKey) (word : Fin occupiedWords) (bits : BitVec 64)
      (slots : List ExecutionSlot)
  | returned (answer : Answer)
  deriving DecidableEq

def Stage.resting : Stage -> Bool
  | idle => true
  | returned _ => true
  | _ => false

def Call.enter (table : Table) : Call -> Table × Stage
  | install slot space =>
    if table.running slot = 0 then (table.store slot space.raw, .marking slot .installed)
    else (table, .returned (.busy ((AddressSpaceKey.fromRaw (table.running slot)).getD space)))
  | switch slot old new =>
    if table.running slot = old.raw then (table.store slot new.raw, .returned (.switched true))
    else (table, .returned (.switched false))
  | replace slot old new =>
    if table.running slot = old then
      (table.store slot new,
        if new ≠ 0 then .marking slot (.replaced true) else .clearing slot (.replaced true))
    else (table, .returned (.replaced false))
  | vacateAny slot =>
    let held := table.running slot
    (table.store slot 0, if held ≠ 0 then .clearing slot (.held held) else .returned (.held held))
  | vacate slot space =>
    if table.running slot = space.raw then (table.store slot 0, .clearing slot (.vacated true))
    else (table, .returned (.vacated false))
  | forEachRunning space => (table, .loading space 0 [])

def Stage.advance (table : Table) : Stage -> Table × Stage
  | idle => (table, idle)
  | entered call => call.enter table
  | marking slot answer => (table.setHint slot, returned answer)
  | clearing slot answer => (table.clearHint slot, rechecking slot answer)
  | rechecking slot answer =>
    if table.running slot ≠ 0 then (table, restoring slot answer) else (table, returned answer)
  | restoring slot answer => (table.setHint slot, returned answer)
  | loading space word slots =>
    if inside : word < occupiedWords then
      (table, visiting space ⟨word, inside⟩ (table.occupied ⟨word, inside⟩) slots)
    else (table, returned (.visited space slots))
  | visiting space word bits slots =>
    if nonzero : bits ≠ 0 then
      let slot := slotAt word bits.ctz.toNat (ctz_toNat_lt nonzero)
      (table, visiting space word (clearLowest bits)
        (if table.running slot = space.raw then slots ++ [slot] else slots))
    else (table, loading space (word + 1) slots)
  | returned answer => (table, returned answer)

/-! ## Any number of threads -/

/-- A call, or the next access of the thread's current call. -/
inductive Event (Thread : Type) where
  | call (thread : Thread) (call : Call)
  | access (thread : Thread)
  deriving DecidableEq

structure System (Thread : Type) where
  table : Table
  stages : Thread -> Stage

variable {Thread : Type} [DecidableEq Thread]

namespace System

def start : System Thread := ⟨Table.new, fun _ => .idle⟩

/-- A thread that is in a call does not start another one. -/
def step (system : System Thread) : Event Thread -> System Thread
  | .call thread call =>
    if (system.stages thread).resting = true then
      { system with stages := Function.update system.stages thread (.entered call) }
    else system
  | .access thread =>
    let moved := (system.stages thread).advance system.table
    ⟨moved.1, Function.update system.stages thread moved.2⟩

@[simp] theorem step_access_table (system : System Thread) (thread : Thread) :
    (system.step (.access thread)).table = ((system.stages thread).advance system.table).1 := rfl

@[simp] theorem step_access_self (system : System Thread) (thread : Thread) :
    (system.step (.access thread)).stages thread =
      ((system.stages thread).advance system.table).2 :=
  Function.update_self _ _ _

theorem step_access_of_ne (system : System Thread) {thread other : Thread}
    (different : other ≠ thread) :
    (system.step (.access thread)).stages other = system.stages other :=
  Function.update_of_ne different _ _

@[simp] theorem step_call_table (system : System Thread) (thread : Thread) (call : Call) :
    (system.step (.call thread call)).table = system.table := by
  unfold step
  dsimp only
  split <;> rfl

theorem step_call_self {system : System Thread} {thread : Thread}
    (resting : (system.stages thread).resting = true) (call : Call) :
    (system.step (.call thread call)).stages thread = .entered call := by
  unfold step
  dsimp only
  rw [if_pos resting]
  exact Function.update_self _ _ _

/-- A call changes the stage of the thread that makes it, if that was at rest. -/
theorem step_call_cases (system : System Thread) (thread other : Thread) (call : Call) :
    (system.step (.call thread call)).stages other = system.stages other ∨
      (system.stages other).resting = true ∧
        (system.step (.call thread call)).stages other = .entered call := by
  by_cases resting : (system.stages thread).resting = true
  · by_cases same : other = thread
    · rw [same]
      exact .inr ⟨resting, step_call_self resting call⟩
    refine .inl ?_
    unfold step
    dsimp only
    rw [if_pos resting]
    exact Function.update_of_ne same _ _
  · refine .inl ?_
    unfold step
    dsimp only
    rw [if_neg resting]

def run (system : System Thread) : List (Event Thread) -> System Thread
  | [] => system
  | event :: rest => (system.step event).run rest

@[simp] theorem run_cons (system : System Thread) (event : Event Thread)
    (rest : List (Event Thread)) : system.run (event :: rest) = (system.step event).run rest := rfl

theorem run_append (system : System Thread) (earlier later : List (Event Thread)) :
    system.run (earlier ++ later) = (system.run earlier).run later := by
  induction earlier generalizing system with
  | nil => rfl
  | cons event rest ih => exact ih (system.step event)

end System

end Occupancy
end Carrick
