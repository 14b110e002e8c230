import Mathlib.Data.List.TakeWhile
import Mathlib.Tactic.Common

namespace Carrick
namespace Foundation

/-!
# Ordered lists of half-open ranges

The entries of a list denote half-open ranges of addresses through a `bounds`
function.  `Ordered` says that the entries are nonempty, sorted and pairwise
disjoint; `Covers` is the set of addresses they occupy.  A binary search over
an ordered list is modelled by the prefix that satisfies its predicate, which
is the answer of any partition search when the predicate is downward closed.
-/

universe u

variable {T : Type u}

/-- The length of the longest prefix satisfying `test`: the answer of a
partition search on a list that `test` partitions. -/
def partitionPoint (test : T -> Bool) (items : List T) : Nat :=
  (items.takeWhile test).length

theorem take_partitionPoint (test : T -> Bool) (items : List T) :
    items.take (partitionPoint test items) = items.takeWhile test := by
  have whole := congrArg (List.take (partitionPoint test items))
    (List.takeWhile_append_dropWhile (p := test) (l := items))
  rw [<- whole]
  exact List.take_left' rfl

theorem drop_partitionPoint (test : T -> Bool) (items : List T) :
    items.drop (partitionPoint test items) = items.dropWhile test := by
  have whole := congrArg (List.drop (partitionPoint test items))
    (List.takeWhile_append_dropWhile (p := test) (l := items))
  rw [<- whole]
  exact List.drop_left' rfl

/-- The partition point between entries that satisfy the test and entries that do not. -/
theorem partitionPoint_append {test : T -> Bool} {first second : List T}
    (passes : ∀ item ∈ first, test item = true)
    (fails : ∀ item ∈ second, test item = false) :
    partitionPoint test (first ++ second) = first.length := by
  have none : second.takeWhile test = [] := by
    cases second with
    | nil => rfl
    | cons head tail =>
      exact List.takeWhile_cons_of_neg (by simp [fails head List.mem_cons_self])
  unfold partitionPoint
  rw [List.takeWhile_append_of_pos passes, none, List.append_nil]

/-- Past the partition point of a downward closed test no entry satisfies it. -/
theorem not_of_mem_dropWhile {relation : T -> T -> Prop} (test : T -> Bool)
    (closed : ∀ first second, relation first second -> test second = true ->
      test first = true)
    {items : List T} (sorted : items.Pairwise relation) {item : T}
    (member : item ∈ items.dropWhile test) : test item = false := by
  induction items with
  | nil => cases member
  | cons head tail ih =>
    have parts := List.pairwise_cons.mp sorted
    cases headTest : test head with
    | true =>
      rw [List.dropWhile_cons_of_pos headTest] at member
      exact ih parts.2 member
    | false =>
      rw [List.dropWhile_cons_of_neg (by simp [headTest])] at member
      rcases List.mem_cons.mp member with same | later
      · exact same ▸ headTest
      apply Bool.eq_false_iff.mpr
      intro itemTest
      have impossible := closed head item (parts.1 item later) itemTest
      rw [headTest] at impossible
      cases impossible

section Bounds

variable (bounds : T -> Nat × Nat)

/-- Sorted, pairwise disjoint and nonempty entries. -/
structure Ordered (items : List T) : Prop where
  nonempty : ∀ item ∈ items, (bounds item).1 < (bounds item).2
  disjoint : items.Pairwise fun first second => (bounds first).2 <= (bounds second).1

/-- The addresses some entry occupies. -/
def Covers (items : List T) (address : Nat) : Prop :=
  ∃ item ∈ items, (bounds item).1 <= address ∧ address < (bounds item).2

variable {bounds}

@[simp] theorem covers_nil (address : Nat) : ¬ Covers bounds ([] : List T) address := by
  rintro ⟨_, impossible, _⟩
  cases impossible

theorem covers_append (first second : List T) (address : Nat) :
    Covers bounds (first ++ second) address <->
      Covers bounds first address ∨ Covers bounds second address := by
  simp only [Covers, List.mem_append, or_and_right, exists_or]

theorem covers_cons (head : T) (tail : List T) (address : Nat) :
    Covers bounds (head :: tail) address <->
      ((bounds head).1 <= address ∧ address < (bounds head).2) ∨ Covers bounds tail address := by
  simp only [Covers, List.mem_cons, or_and_right, exists_or, exists_eq_left]

namespace Ordered

theorem nil : Ordered bounds ([] : List T) :=
  ⟨nofun, .nil⟩

theorem sublist {shorter items : List T} (ordered : Ordered bounds items)
    (kept : shorter.Sublist items) : Ordered bounds shorter :=
  ⟨fun item member => ordered.nonempty item (kept.subset member), ordered.disjoint.sublist kept⟩

theorem cons_iff {head : T} {tail : List T} :
    Ordered bounds (head :: tail) <->
      (bounds head).1 < (bounds head).2 ∧
        (∀ item ∈ tail, (bounds head).2 <= (bounds item).1) ∧
        Ordered bounds tail := by
  constructor
  · intro ordered
    have parts := List.pairwise_cons.mp ordered.disjoint
    exact ⟨ordered.nonempty head List.mem_cons_self, parts.1,
      ⟨fun item member => ordered.nonempty item (List.mem_cons_of_mem _ member), parts.2⟩⟩
  rintro ⟨positive, later, ordered⟩
  refine ⟨?_, List.pairwise_cons.mpr ⟨later, ordered.disjoint⟩⟩
  intro item member
  rcases List.mem_cons.mp member with same | inTail
  · exact same ▸ positive
  · exact ordered.nonempty item inTail

theorem append_iff {first second : List T} :
    Ordered bounds (first ++ second) <->
      Ordered bounds first ∧ Ordered bounds second ∧
        ∀ left ∈ first, ∀ right ∈ second,
          (bounds left).2 <= (bounds right).1 := by
  constructor
  · intro ordered
    have parts := List.pairwise_append.mp ordered.disjoint
    exact ⟨ordered.sublist (List.sublist_append_left _ _),
      ordered.sublist (List.sublist_append_right _ _), parts.2.2⟩
  rintro ⟨firstOrdered, secondOrdered, across⟩
  refine ⟨?_, List.pairwise_append.mpr
    ⟨firstOrdered.disjoint, secondOrdered.disjoint, across⟩⟩
  intro item member
  rcases List.mem_append.mp member with inFirst | inSecond
  · exact firstOrdered.nonempty item inFirst
  · exact secondOrdered.nonempty item inSecond

/-- The entries an ascending search on the range ends skips all end before
the bound, and the ones it stops at do not. -/
theorem split_by_end {items : List T} (ordered : Ordered bounds items) (test : Nat -> Bool)
    (closed : ∀ lower upper, lower <= upper -> test upper = true -> test lower = true) :
    (∀ item ∈ items.takeWhile (fun item => test (bounds item).2),
      test (bounds item).2 = true) ∧
    (∀ item ∈ items.dropWhile (fun item => test (bounds item).2),
      test (bounds item).2 = false) := by
  constructor
  · intro item member
    have tested := List.mem_takeWhile_imp member
    exact tested
  intro item member
  have increasing : items.Pairwise
      (fun first second => (bounds first).2 <= (bounds second).2) := by
    refine List.Pairwise.imp_of_mem ?_ ordered.disjoint
    intro first second _ secondMember before
    exact Nat.le_of_lt (Nat.lt_of_le_of_lt before (ordered.nonempty second secondMember))
  exact not_of_mem_dropWhile (fun item => test (bounds item).2)
    (fun first second before => closed _ _ before) increasing member

theorem split_by_start {items : List T} (ordered : Ordered bounds items) (test : Nat -> Bool)
    (closed : ∀ lower upper, lower <= upper -> test upper = true -> test lower = true) :
    (∀ item ∈ items.takeWhile (fun item => test (bounds item).1),
      test (bounds item).1 = true) ∧
    (∀ item ∈ items.dropWhile (fun item => test (bounds item).1),
      test (bounds item).1 = false) := by
  constructor
  · intro item member
    have tested := List.mem_takeWhile_imp member
    exact tested
  intro item member
  have increasing : items.Pairwise
      (fun first second => (bounds first).1 <= (bounds second).1) := by
    refine List.Pairwise.imp_of_mem ?_ ordered.disjoint
    intro first second firstMember _ before
    exact Nat.le_trans (Nat.le_of_lt (ordered.nonempty first firstMember)) before
  exact not_of_mem_dropWhile (fun item => test (bounds item).1)
    (fun first second before => closed _ _ before) increasing member

/-- The two searches of an edit cut an ordered list into the entries before a
range, the ones that meet it and the ones behind it. -/
theorem window {items : List T} (ordered : Ordered bounds items) {start stop : Nat}
    (nonempty : start < stop) :
    ∃ before middle after, items = before ++ (middle ++ after) ∧
      partitionPoint (fun item => decide ((bounds item).2 <= start)) items = before.length ∧
      partitionPoint (fun item => decide ((bounds item).1 < stop)) items =
        before.length + middle.length ∧
      (∀ item ∈ before, (bounds item).2 <= start) ∧
      (∀ item ∈ middle, start < (bounds item).2 ∧ (bounds item).1 < stop) ∧
      ∀ item ∈ after, stop <= (bounds item).1 := by
  have byEnd := ordered.split_by_end (fun last => decide (last <= start))
    (fun lower upper order inside => decide_eq_true (Nat.le_trans order (of_decide_eq_true inside)))
  have whole := List.takeWhile_append_dropWhile (p := fun item => decide ((bounds item).2 <= start))
    (l := items)
  have rest := ordered.sublist
    (List.dropWhile_sublist (fun item => decide ((bounds item).2 <= start)) (l := items))
  have byStart := rest.split_by_start (fun first => decide (first < stop))
    (fun lower upper order inside => decide_eq_true (Nat.lt_of_le_of_lt order (of_decide_eq_true inside)))
  have wholeRest := List.takeWhile_append_dropWhile (p := fun item => decide ((bounds item).1 < stop))
    (l := items.dropWhile (fun item => decide ((bounds item).2 <= start)))
  refine ⟨items.takeWhile (fun item => decide ((bounds item).2 <= start)),
    (items.dropWhile (fun item => decide ((bounds item).2 <= start))).takeWhile
      (fun item => decide ((bounds item).1 < stop)),
    (items.dropWhile (fun item => decide ((bounds item).2 <= start))).dropWhile
      (fun item => decide ((bounds item).1 < stop)),
    ?_, rfl, ?_, fun item member => of_decide_eq_true (byEnd.1 item member),
    fun item member => ?_, fun item member => ?_⟩
  · rw [wholeRest, whole]
  · have early : ∀ item ∈ items.takeWhile (fun item => decide ((bounds item).2 <= start)),
        decide ((bounds item).1 < stop) = true := by
      intro item member
      have ends := of_decide_eq_true (byEnd.1 item member)
      have room := ordered.nonempty item (List.takeWhile_sublist _ |>.subset member)
      exact decide_eq_true (by omega)
    unfold partitionPoint
    conv => lhs; rw [<- whole]
    rw [List.takeWhile_append_of_pos early, List.length_append]
  · have inRest := (List.takeWhile_sublist (fun item => decide ((bounds item).1 < stop))).subset member
    have late := of_decide_eq_false (byEnd.2 item inRest)
    exact ⟨by omega, of_decide_eq_true (byStart.1 item member)⟩
  · have late := of_decide_eq_false (byStart.2 item member)
    omega

end Ordered

end Bounds

end Foundation
end Carrick
