import Carrick.Inotify.EventQueue
import Mathlib.Data.Finset.Card

namespace Carrick
namespace Inotify

/-!
# Watch descriptors

A new watch takes its descriptor from a cursor that runs through the positive
words and starts again at one.  Descriptors in use are passed by, and one probe
more than there are watches in use is enough to find a free one.
-/

/-- The cursor behind a descriptor. -/
def advance (wd : Int32) : Int32 := if wd = Int32.maxValue then 1 else wd + 1

/-- The probes of an allocation: its answer and the cursor it leaves. -/
def probe (isInUse : Int32 -> Bool) : Nat -> Int32 -> Except LinuxErrno Int32 × Int32
  | 0, nextWd => (.error .enospc, nextWd)
  | probes + 1, wd =>
    if 0 < wd ∧ isInUse wd = false then (.ok wd, advance wd)
    else probe isInUse probes (advance wd)

def allocWd (nextWd : Int32) (liveCount : Nat) (isInUse : Int32 -> Bool) :
    Except LinuxErrno Int32 × Int32 :=
  if Int32.maxValue.toInt.toNat <= liveCount then (.error .enospc, nextWd)
  else probe isInUse (liveCount + 1) nextWd

structure DelegatedWatch where
  wd : Int32
  fileHandle : UInt32
  mask : UInt32
  alive : UInt32
  deriving DecidableEq

def DelegatedWatch.isAlive (watch : DelegatedWatch) : Bool := watch.alive ≠ 0

/-- The part of an instance that hands out descriptors. -/
structure DelegatedInotify where
  nextWd : Int32
  numWatches : UInt32
  watches : List DelegatedWatch

namespace DelegatedInotify

def findWatch (inotify : DelegatedInotify) (wd : Int32) : Option (Nat × DelegatedWatch) :=
  if wd <= 0 then none
  else
    (inotify.watches.zipIdx.find? (fun found => found.1.isAlive && found.1.wd = wd)).map Prod.swap

def allocWd (inotify : DelegatedInotify) : Except LinuxErrno Int32 × DelegatedInotify :=
  match Inotify.allocWd inotify.nextWd inotify.numWatches.toNat
    (fun wd => (inotify.findWatch wd).isSome) with
  | (.ok wd, next) => (.ok wd, { inotify with nextWd := next })
  | (.error errno, _) => (.error errno, inotify)

end DelegatedInotify

/-! ## The cursor -/

theorem toInt_advance (wd : Int32) :
    (advance wd).toInt = if wd.toInt = 2147483647 then 1 else wd.toInt + 1 := by
  have last : wd = Int32.maxValue <-> wd.toInt = 2147483647 := Int32.toInt_inj.symm
  have low := wd.le_toInt
  have high := wd.toInt_lt
  unfold advance
  rw [apply_ite Int32.toInt, if_congr last rfl rfl]
  split_ifs with wraps
  · rfl
  · rw [Int32.toInt_add]
    change Int.bmod (wd.toInt + 1) _ = _
    exact Int.bmod_eq_of_le (by omega) (by omega)

theorem positive_iff {wd : Int32} : 0 < wd <-> 0 < wd.toInt := Int32.lt_iff_toInt_lt

/-- The candidates of an allocation run through the positive words in a circle. -/
theorem toInt_iterate_advance {wd : Int32} (positive : 0 < wd) (probes : Nat) :
    (advance^[probes] wd).toInt = (wd.toInt - 1 + probes) % 2147483647 + 1 := by
  have low := positive_iff.mp positive
  have high := wd.toInt_lt
  induction probes with
  | zero =>
    rw [Function.iterate_zero, id]
    omega
  | succ probes ih =>
    rw [Function.iterate_succ_apply', toInt_advance, ih]
    split_ifs <;> omega

/-! ## Allocation -/

/-- A free descriptor within the probes of an allocation, with a positive cursor
behind it. -/
structure Available (isInUse : Int32 -> Bool) (nextWd : Int32) (liveCount : Nat) (wd : Int32) :
    Prop where
  probed : ∃ probes, probes <= liveCount ∧ wd = advance^[probes] nextWd
  positive : 0 < wd
  unused : isInUse wd = false
  cursor : 0 < advance wd

variable {isInUse : Int32 -> Bool}

theorem probe_cases (rounds : Nat) (nextWd : Int32) :
    (∀ probes, probes < rounds -> 0 < advance^[probes] nextWd ->
      isInUse (advance^[probes] nextWd) = true) ∨
    ∃ probes, probes < rounds ∧ 0 < advance^[probes] nextWd ∧
      isInUse (advance^[probes] nextWd) = false ∧
      probe isInUse rounds nextWd = (.ok (advance^[probes] nextWd), advance (advance^[probes] nextWd)) := by
  induction rounds generalizing nextWd with
  | zero => exact .inl (fun _ none => absurd none (Nat.not_lt_zero _))
  | succ rounds ih =>
    by_cases free : 0 < nextWd ∧ isInUse nextWd = false
    · exact .inr ⟨0, Nat.succ_pos _, free.1, free.2, if_pos free⟩
    have next : probe isInUse (rounds + 1) nextWd = probe isInUse rounds (advance nextWd) :=
      if_neg free
    rcases ih (advance nextWd) with used | ⟨probes, below, positive, unused, found⟩
    · refine .inl (fun probes below positive => ?_)
      cases probes with
      | zero => exact Bool.not_eq_false _ ▸ fun unused => free ⟨positive, unused⟩
      | succ probes => exact used probes (by omega) positive
    · exact .inr ⟨probes + 1, by omega, positive, unused, next.trans found⟩

/-- As many candidates as there are probes are apart, so that one of them is
not in use. -/
theorem allocWd_available {live : Finset Int32} {liveCount : Nat} (counted : live.card <= liveCount)
    (room : liveCount < Int32.maxValue.toInt.toNat) {nextWd : Int32} (positive : 0 < nextWd)
    (used : ∀ wd, isInUse wd = true -> wd ∈ live) :
    ∃ wd, allocWd nextWd liveCount isInUse = (.ok wd, advance wd) ∧
      Available isInUse nextWd liveCount wd := by
  have most : Int32.maxValue.toInt.toNat = 2147483647 := rfl
  have candidate := toInt_iterate_advance positive
  have cursor : ∀ probes, 0 < advance^[probes] nextWd := by
    intro probes
    have word := candidate probes
    exact positive_iff.mpr (by omega)
  unfold allocWd
  rw [if_neg (by omega)]
  rcases @probe_cases isInUse (liveCount + 1) nextWd with all | ⟨probes, below, free, unused, found⟩
  · have into : ∀ probes ∈ Finset.range (liveCount + 1), advance^[probes] nextWd ∈ live :=
      fun probes member => used _ (all probes (Finset.mem_range.mp member) (cursor probes))
    have apart : Set.InjOn (fun probes => advance^[probes] nextWd) (Finset.range (liveCount + 1)) := by
      intro first inFirst second inSecond same
      have one := candidate first
      have two := candidate second
      rw [Finset.coe_range, Set.mem_Iio] at inFirst inSecond
      dsimp only at same
      rw [same] at one
      omega
    have many := Finset.card_le_card_of_injOn _ into apart
    rw [Finset.card_range] at many
    omega
  · refine ⟨_, found, ⟨probes, by omega, rfl⟩, free, unused, ?_⟩
    have behind := cursor (probes + 1)
    rw [Function.iterate_succ_apply'] at behind
    exact behind

theorem mem_of_findWatch {inotify : DelegatedInotify} {wd : Int32}
    (found : (inotify.findWatch wd).isSome = true) :
    wd ∈ ((inotify.watches.filter DelegatedWatch.isAlive).map DelegatedWatch.wd).toFinset := by
  unfold DelegatedInotify.findWatch at found
  split_ifs at found
  · cases found
  rw [Option.isSome_map] at found
  rcases Option.isSome_iff_exists.mp found with ⟨entry, has⟩
  have test := List.find?_some has
  rw [Bool.and_eq_true, decide_eq_true_eq] at test
  rw [List.mem_toFinset]
  exact List.mem_map.mpr ⟨entry.1, List.mem_filter.mpr
    ⟨List.fst_mem_of_mem_zipIdx (List.mem_of_find?_eq_some has), test.1⟩, test.2⟩

/-- An allocation finds a free descriptor as long as there is one, from any cursor
and across the wrap from the largest descriptor to the first. -/
theorem free_descriptor_is_found :
    (∀ (live : Finset Int32) nextWd, live.card < Int32.maxValue.toInt.toNat -> 0 < nextWd ->
      ∃ wd, allocWd nextWd live.card (fun wd => decide (wd ∈ live)) = (.ok wd, advance wd) ∧
        Available (fun wd => decide (wd ∈ live)) nextWd live.card wd) ∧
    ∀ inotify : DelegatedInotify,
      inotify.watches.countP DelegatedWatch.isAlive = inotify.numWatches.toNat ->
      inotify.numWatches.toNat < Int32.maxValue.toInt.toNat -> 0 < inotify.nextWd ->
      ∃ wd, inotify.allocWd = (.ok wd, { inotify with nextWd := advance wd }) ∧
        Available (fun wd => (inotify.findWatch wd).isSome) inotify.nextWd
          inotify.numWatches.toNat wd := by
  constructor
  · intro live nextWd room positive
    exact allocWd_available le_rfl room positive (fun wd => of_decide_eq_true)
  intro inotify counted room positive
  have few := List.toFinset_card_le
    ((inotify.watches.filter DelegatedWatch.isAlive).map DelegatedWatch.wd)
  rw [List.length_map, <- List.countP_eq_length_filter, counted] at few
  rcases allocWd_available few room positive (fun _ => mem_of_findWatch) with ⟨wd, found, available⟩
  refine ⟨wd, ?_, available⟩
  unfold DelegatedInotify.allocWd
  rw [found]

/-- With the last descriptor and the first in use, the second one is taken. -/
theorem descriptor_after_the_wrap :
    ∃ wd, allocWd Int32.maxValue 2 (fun wd => decide (wd ∈ ({Int32.maxValue, 1} : Finset Int32))) =
      (.ok wd, advance wd) ∧ 0 < wd := by
  rcases free_descriptor_is_found.1 {Int32.maxValue, 1} Int32.maxValue (by decide) (by decide) with
    ⟨wd, found, available⟩
  exact ⟨wd, found, available.positive⟩

end Inotify
end Carrick
